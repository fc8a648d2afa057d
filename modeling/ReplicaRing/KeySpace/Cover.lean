import ReplicaRing.KeySpace.Basic

/-! Arcs put together. A union is an arc, so two arcs with a gap on both sides become the whole
space: covering too much is preferred to covering too little. Coverage counts slots, each once. -/
namespace ReplicaRing

namespace KeyRange

/-- The whole space, seen from the start of the range. -/
def widened (r : KeyRange) : KeyRange :=
  ⟨r.space, r.start, r.space.length, r.start_lt, Nat.le_refl _⟩

/-- The range, grown to reach the end of one that starts within it or right after it. -/
def extendOver (r other : KeyRange) : Option KeyRange :=
  let gap := r.offset other.start
  if r.length < gap then none
  else some ⟨r.space, r.start, min (max r.length (gap + other.length)) r.space.length, r.start_lt,
    Nat.min_le_right _ _⟩

/-- The smaller of the arcs that reach over both; the first range's on a tie. -/
def union (a b : KeyRange) : KeyRange :=
  if b.isEmpty then a
  else if a.isEmpty then b
  else if a.isFull || b.isFull then a.widened
  else
    match a.extendOver b, b.extendOver a with
    | some x, some y => if y.length < x.length then y else x
    | some x, none => x
    | none, some y => y
    | none, none => a.widened

/-- Marks the slots of the range; slots beyond the buffer are left out. -/
def fill (r : KeyRange) (buffer : Array Bool) : Array Bool :=
  (List.range r.length).foldl
    (fun buffer i => buffer.setIfInBounds ((r.start + i) % r.space.length) true) buffer

end KeyRange

/-- How many slots of the space some range covers. Ranges of other spaces count where their slot
numbers fall inside this one. -/
def KeySpace.coverage (space : KeySpace) (ranges : List KeyRange) : Nat :=
  (ranges.foldl (fun buffer r => r.fill buffer) (Array.replicate space.length false)).count true

end ReplicaRing
