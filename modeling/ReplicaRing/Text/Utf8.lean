/-! Reading bytes as UTF-8, with the place of the first fault. Overlong forms, surrogates and
numbers beyond U+10FFFF are faults at their second byte. -/
namespace ReplicaRing.Utf8

/-- `index` is the first byte of the character at fault and `length` how many bytes of it were
read in vain; a text that ends inside a character has no such length. -/
structure Fault where
  index : Nat
  length : Option Nat
deriving DecidableEq, Repr

/-- Bounds of the bytes that follow a character's first byte. -/
def owedAfter (first : UInt8) : Option (List (UInt8 × UInt8)) :=
  let tail : UInt8 × UInt8 := (0x80, 0xBF)
  if first < 0x80 then some []
  else if 0xC2 ≤ first ∧ first ≤ 0xDF then some [tail]
  else if first = 0xE0 then some [(0xA0, 0xBF), tail]
  else if first = 0xED then some [(0x80, 0x9F), tail]
  else if 0xE1 ≤ first ∧ first ≤ 0xEF then some [tail, tail]
  else if first = 0xF0 then some [(0x90, 0xBF), tail, tail]
  else if 0xF1 ≤ first ∧ first ≤ 0xF3 then some [tail, tail, tail]
  else if first = 0xF4 then some [(0x80, 0x8F), tail, tail]
  else none

/-- Scans on from the character that began at `start`, of which `seen` bytes are read and the
`owed` ones still missing. -/
def faultFrom (owed : List (UInt8 × UInt8)) (start seen : Nat) : List UInt8 → Option Fault
  | [] => if owed.isEmpty then none else some ⟨start, none⟩
  | byte :: rest =>
    match owed with
    | [] =>
      match owedAfter byte with
      | none => some ⟨start + seen, some 1⟩
      | some owed => faultFrom owed (start + seen) 1 rest
    | (low, high) :: owed =>
      if low ≤ byte ∧ byte ≤ high then faultFrom owed start (seen + 1) rest
      else some ⟨start, some seen⟩

def fault? (bytes : List UInt8) : Option Fault := faultFrom [] 0 0 bytes

def Fault.message (fault : Fault) : String :=
  match fault.length with
  | some length => s!"invalid utf-8 sequence of {length} bytes from index {fault.index}"
  | none => s!"incomplete utf-8 byte sequence from index {fault.index}"

/-- The text whose encoding the bytes are. -/
def decode (bytes : ByteArray) : Except Fault String :=
  match String.fromUTF8? bytes with
  | some text => .ok text
  | none => .error ((fault? bytes.toList).getD ⟨bytes.size, none⟩)

theorem decode_toUTF8 (text : String) : decode text.toUTF8 = .ok text := by
  have valid : String.fromUTF8? text.toUTF8 = some text := by
    rw [String.fromUTF8?, String.toUTF8_eq_toByteArray, dif_pos text.isValidUTF8]
    rfl
  rw [decode, valid]

end ReplicaRing.Utf8
