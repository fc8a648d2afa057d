import ReplicaRing.KeySpace.Basic

/-! A space divided into segments, one per node, with copies: each node covers its own segment and the ones that follow
it. An even division is exact. In an uneven one segment boundaries are rounded to the nearest slot, so segments differ
in size and may be empty. The rounding is that of quotients and products to 53 significant bits, half to even, and of
these to whole numbers, half up. -/
namespace ReplicaRing

/-- The exact value `mantissa / 2 ^ places`. -/
structure Dyadic where
  mantissa : Nat
  places : Nat
deriving DecidableEq, Repr

/-- The quotient to the nearest whole number, a half to the even neighbour. -/
def roundHalfEven (num den : Nat) : Nat :=
  let floor := num / den
  let twice := 2 * (num % den)
  if twice < den then floor
  else if den < twice then floor + 1
  else floor + floor % 2

namespace Dyadic

/-- The largest `e` with `2 ^ e * den ≤ num * 2 ^ shift`, moved back by `shift`: the binary place of
the quotient's leading digit, counted from `2 ^ (-shift)`. -/
def leadingPlace (shift num den : Nat) : Nat := Nat.log2 (num * Nat.pow 2 shift / den)

/-- The nearest value with 53 significant bits, for quotients between `2 ^ (-64)` and `2 ^ 52`. -/
def nearest (num den : Nat) : Dyadic :=
  let places := 52 + 64 - leadingPlace 64 num den
  ⟨roundHalfEven (num * Nat.pow 2 places) den, places⟩

def times (x : Dyadic) (n : Nat) : Dyadic := nearest (x.mantissa * n) (Nat.pow 2 x.places)

/-- The nearest whole number, a half upwards. -/
def round (x : Dyadic) : Nat := (2 * x.mantissa + Nat.pow 2 x.places) / Nat.pow 2 (x.places + 1)

end Dyadic

namespace KeySpace

/-- Where segment `index` of `count` begins: the segment length and its multiple are each rounded
to 53 bits, then the multiple to a slot. -/
def boundary (space : KeySpace) (count index : Nat) : Nat :=
  ((Dyadic.nearest space.length count).times index).round

/-- The segment behind the last one of a node. Where counts are words of 32 bits so is the sum, which goes around like
them; with checked arithmetic there is none beyond the last word. -/
def segmentAfter (count index copies : Nat) : Nat :=
  let ahead := index + copies
  (if count < UInt32.size then ahead % UInt32.size else ahead) % count

/-- A single segment is the whole space, whatever its index. -/
def segment (space : KeySpace) (index count copies : Nat) : Except ArgumentError KeyRange :=
  if count ≤ 1 then .ok space.fullRange
  else if count ≤ index then .error (.segmentIndex index count)
  else if copies = 0 then .error .noCopies
  else
    let copies := min copies count
    if space.length % count = 0 then
      let simple := space.length / count
      space.range (index * simple) (copies * simple)
    else
      let start := space.boundary count index
      if copies = count then space.range (start % space.length) space.length
      else
        let stop := space.boundary count (segmentAfter count index copies)
        let span := if stop < start then stop + space.length - start else stop - start
        space.range (start % space.length) (min span space.length)

end KeySpace
end ReplicaRing
