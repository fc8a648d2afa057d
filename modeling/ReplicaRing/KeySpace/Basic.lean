import ReplicaRing.Error
import ReplicaRing.Fingerprint.Layout

/-! A circular space of key slots and its arcs. An arc starts inside the space and never exceeds it,
by construction, so it may wrap around zero but no further than back to its start. -/
namespace ReplicaRing

structure KeySpace where
  length : Nat
  length_pos : 0 < length
  length_le : length ≤ maxKeySpaceLength
deriving DecidableEq

/-- A key's full hash and the slot it falls into. -/
structure KeyHash where
  full : UInt64
  slot : Nat
deriving DecidableEq

/-- The slots from `start` on, `length` of them, counted around the space. -/
structure KeyRange where
  space : KeySpace
  start : Nat
  length : Nat
  start_lt : start < space.length
  length_le : length ≤ space.length
deriving DecidableEq

namespace KeySpace

/-- The degrees of a circle. -/
def standard : KeySpace := ⟨360, by decide, by decide⟩

def ofLength (length : Nat) : Except ArgumentError KeySpace :=
  if pos : 0 < length then
    if le : length ≤ maxKeySpaceLength then .ok ⟨length, pos, le⟩
    else .error (.keySpaceTooLong length)
  else .error .emptyKeySpace

/-- The start is checked first. -/
def range (space : KeySpace) (start length : Nat) : Except ArgumentError KeyRange :=
  if lt : start < space.length then
    if le : length ≤ space.length then .ok ⟨space, start, length, lt, le⟩
    else .error (.rangeLength length space.length)
  else .error (.rangeStart start space.length)

def emptyRange (space : KeySpace) : KeyRange := ⟨space, 0, 0, space.length_pos, Nat.zero_le _⟩

def fullRange (space : KeySpace) : KeyRange := ⟨space, 0, space.length, space.length_pos, Nat.le_refl _⟩

def hash (space : KeySpace) (full : UInt64) : KeyHash := ⟨full, full.toNat % space.length⟩

def text (space : KeySpace) : String := s!"[0,+{space.length}]"

instance : Fingerprint.Layout KeySpace := ⟨fun space => Fingerprint.littleEndian 4 space.length⟩

end KeySpace

namespace KeyRange

/-- One past the last slot, not reduced into the space. -/
def stop (r : KeyRange) : Nat := r.start + r.length

def isEmpty (r : KeyRange) : Bool := r.length == 0

def isFull (r : KeyRange) : Bool := r.length == r.space.length

/-- Steps clockwise from the start to the slot. -/
def offset (r : KeyRange) (slot : Nat) : Nat :=
  (slot % r.space.length + r.space.length - r.start) % r.space.length

def containsSlot (r : KeyRange) (slot : Nat) : Bool := r.offset slot < r.length

def contains (r : KeyRange) (hash : KeyHash) : Bool := r.containsSlot hash.slot

/-- Steps clockwise from the slot of the hash into the range. An empty range is measured to its
start, although it contains no slot. -/
def distance (r : KeyRange) (hash : KeyHash) : Nat :=
  let slot := hash.slot % r.space.length
  if r.containsSlot slot then 0 else (r.start + r.space.length - slot) % r.space.length

def text (r : KeyRange) : String := s!"[{r.start},+{r.length}]"

instance : Fingerprint.Layout KeyRange :=
  ⟨fun r => Fingerprint.bytes r.space ++ Fingerprint.littleEndian 4 r.start ++
    Fingerprint.littleEndian 4 r.length⟩

theorem offset_lt (r : KeyRange) (slot : Nat) : r.offset slot < r.space.length :=
  Nat.mod_lt _ r.space.length_pos

end KeyRange

theorem KeySpace.length_lt_word (space : KeySpace) : space.length < Nat.pow 2 32 :=
  Nat.lt_of_le_of_lt space.length_le (by decide)

theorem KeySpace.range_eq_ok_iff {space : KeySpace} {start length : Nat} {r : KeyRange} :
    space.range start length = .ok r ↔ r.space = space ∧ r.start = start ∧ r.length = length := by
  constructor
  · intro made
    simp only [range] at made
    split at made
    · split at made
      · cases made; exact ⟨rfl, rfl, rfl⟩
      · contradiction
    · contradiction
  · rintro ⟨rfl, rfl, rfl⟩
    simp [range, r.start_lt, r.length_le]

end ReplicaRing
