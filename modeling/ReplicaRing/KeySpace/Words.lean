import ReplicaRing.KeySpace.Cover

/-! Ranges in words of 32 bits. Each operation is written out as the sums, differences and remainders that it forms on
the way, in their order, for any arithmetic that is exact where a result fits. -/
namespace ReplicaRing

/-- Arithmetic on words. A result that is a word is the exact one; where none is, the arithmetic may fail or go on with
any word. -/
structure WordArithmetic where
  add : UInt32 → UInt32 → Option UInt32
  sub : UInt32 → UInt32 → Option UInt32
  rem : UInt32 → UInt32 → Option UInt32
  add_of_lt : ∀ {x y}, x.toNat + y.toNat < UInt32.size → add x y = some (x + y)
  sub_of_le : ∀ {x y}, y ≤ x → sub x y = some (x - y)
  rem_of_pos : ∀ {x y}, 0 < y → rem x y = some (x % y)

namespace WordArithmetic

/-- Fails unless the exact result is a word. -/
def checked : WordArithmetic where
  add x y := if x.toNat + y.toNat < UInt32.size then some (x + y) else none
  sub x y := if y ≤ x then some (x - y) else none
  rem x y := if 0 < y then some (x % y) else none
  add_of_lt fits := if_pos fits
  sub_of_le le := if_pos le
  rem_of_pos pos := if_pos pos

/-- Sums and differences are reduced to a word. There is no remainder by zero here either. -/
def wrapping : WordArithmetic where
  add x y := some (x + y)
  sub x y := some (x - y)
  rem x y := if 0 < y then some (x % y) else none
  add_of_lt _ := rfl
  sub_of_le _ := rfl
  rem_of_pos pos := if_pos pos

end WordArithmetic

/-- Three words: the length of the space, the start, and the length. -/
structure WordRange where
  space : UInt32
  start : UInt32
  length : UInt32
deriving DecidableEq

namespace WordRange

/-- What is checked before words are taken for a range. -/
structure Valid (w : WordRange) : Prop where
  space_pos : 0 < w.space
  space_le : w.space.toNat ≤ maxKeySpaceLength
  start_lt : w.start < w.space
  length_le : w.length ≤ w.space

def isEmpty (w : WordRange) : Bool := w.length == 0

def isFull (w : WordRange) : Bool := w.length == w.space

def widened (w : WordRange) : WordRange := { w with length := w.space }

end WordRange

def KeyRange.words (r : KeyRange) : WordRange := ⟨.ofNat r.space.length, .ofNat r.start, .ofNat r.length⟩

namespace WordArithmetic

variable (arith : WordArithmetic)

def stop (w : WordRange) : Option UInt32 := arith.add w.start w.length

def offset (w : WordRange) (slot : UInt32) : Option UInt32 := do
  let inside ← arith.rem slot w.space
  let ahead ← arith.add inside w.space
  let steps ← arith.sub ahead w.start
  arith.rem steps w.space

/-- The way to the slot is measured only where the length alone does not tell. -/
def containsSlot (w : WordRange) (slot : UInt32) : Option Bool :=
  if w.isEmpty then some false
  else if w.isFull then some true
  else do
    let steps ← arith.offset w slot
    return steps < w.length

def distance (w : WordRange) (slot : UInt32) : Option UInt32 := do
  let inside ← arith.rem slot w.space
  if ← arith.containsSlot w inside then return 0
  else
    let ahead ← arith.add w.start w.space
    let steps ← arith.sub ahead inside
    arith.rem steps w.space

def extendOver (w other : WordRange) : Option (Option WordRange) := do
  let gap ← arith.offset w other.start
  if w.length < gap then return none
  else
    let reach ← arith.add gap other.length
    return some { w with length := min (max w.length reach) w.space }

def union (v w : WordRange) : Option WordRange :=
  if w.isEmpty then some v
  else if v.isEmpty then some w
  else if v.isFull || w.isFull then some v.widened
  else do
    match ← arith.extendOver v w, ← arith.extendOver w v with
    | some x, some y => return if y.length < x.length then y else x
    | some x, none => return x
    | none, some y => return y
    | none, none => return v.widened

/-- Counts a word from zero up to the length. -/
def fill (w : WordRange) (buffer : Array Bool) : Option (Array Bool) :=
  (List.range w.length.toNat).foldlM (fun buffer i => do
    let place ← arith.add w.start (.ofNat i)
    let slot ← arith.rem place w.space
    return buffer.setIfInBounds slot.toNat true) buffer

end WordArithmetic
end ReplicaRing
