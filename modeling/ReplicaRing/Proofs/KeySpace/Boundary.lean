import ReplicaRing.Proofs.KeySpace.Rounding

/-! Where the segments of an uneven division begin. Both roundings together keep the boundaries in order and inside the
space, the first at its first slot and the last behind it. Boundaries are all different where there are fewer segments
than slots. -/
namespace ReplicaRing.KeySpace

variable {space : KeySpace} {count index : Nat}

/-- What rounding has to leave true of where segments begin. -/
structure Rounded (space : KeySpace) (count : Nat) : Prop where
  mono : ∀ i j, i ≤ j → j < count → space.boundary count i ≤ space.boundary count j
  zero : space.boundary count 0 = 0
  within : ∀ i < count, space.boundary count i ≤ space.length
  last : 1 ≤ space.boundary count (count - 1)

def width (space : KeySpace) (count : Nat) : Dyadic := Dyadic.nearest space.length count

theorem boundary_eq (space : KeySpace) (count index : Nat) : space.boundary count index =
    (Dyadic.nearest ((space.width count).mantissa * index) (2 ^ (space.width count).places)).round := rfl

theorem width_mul (space : KeySpace) (count index : Nat) :
    (((space.width count).mantissa * index : Nat) : ℚ) / (2 ^ (space.width count).places : Nat) =
      (space.width count).value * index := by
  rw [Dyadic.value]
  push_cast
  ring

theorem length_lt (space : KeySpace) : space.length < 2 ^ 31 := by
  have le := space.length_le
  simp only [maxKeySpaceLength] at le
  omega

section Width

variable (space) (several : 2 ≤ count) (word : count < 2 ^ 32)
include several word

theorem width_error :
    |(space.width count).value - space.length / count| * 2 ^ 53 ≤ (space.width count).value := by
  have length := space.length_lt
  have pos := space.length_pos
  exact Dyadic.nearest_error (by omega) (by omega)

theorem width_mul_le (inside : index < count) : (space.width count).value * index ≤ space.length := by
  have count_pos : (0 : ℚ) < count := by exact_mod_cast (by omega : 0 < count)
  have few : (count : ℚ) ≤ 2 ^ 53 := by exact_mod_cast (by omega : count ≤ 2 ^ 53)
  have before : (index : ℚ) + 1 ≤ count := by exact_mod_cast inside
  have error := space.width_error several word
  have nonneg := (space.width count).value_nonneg
  have upper : (space.width count).value * (2 ^ 53 - 1) ≤ space.length / count * 2 ^ 53 := by
    have above := le_abs_self ((space.width count).value - space.length / count)
    linarith
  rw [div_mul_eq_mul_div, le_div_iff₀ count_pos] at upper
  nlinarith

theorem one_lt_width (fewer : count < space.length) : 1 < (space.width count).value := by
  have count_pos : (0 : ℚ) < count := by exact_mod_cast (by omega : 0 < count)
  have few : (count : ℚ) < 2 ^ 53 := by exact_mod_cast (by omega : count < 2 ^ 53)
  have more : (count : ℚ) + 1 ≤ space.length := by exact_mod_cast fewer
  have error := space.width_error several word
  have lower : space.length / count * 2 ^ 53 ≤ (space.width count).value * (2 ^ 53 + 1) := by
    have below := neg_abs_le ((space.width count).value - space.length / count)
    linarith
  rw [div_mul_eq_mul_div, div_le_iff₀ count_pos] at lower
  by_contra narrow
  nlinarith

theorem half_le_width_mul : 1 / 2 ≤ (space.width count).value * (count - 1 : Nat) := by
  have length := space.length_lt
  have length_pos : (1 : ℚ) ≤ space.length := by exact_mod_cast space.length_pos
  have count_pos : (0 : ℚ) < count := by exact_mod_cast (by omega : 0 < count)
  let place := (count - 1).log2
  have below : 2 ^ place ≤ count - 1 := Nat.log2_self_le (by omega)
  have above : count - 1 < 2 ^ (place + 1) := Nat.lt_log2_self
  have low : place < 32 := (Nat.log2_lt (by omega)).mpr (by omega)
  have part : 1 / 2 ^ (place + 1) ≤ (space.width count).value := by
    refine Dyadic.half_power_le_nearest (by omega) (by omega) ?_
    have reach : (count : ℚ) ≤ 2 ^ (place + 1) := by exact_mod_cast (by omega : count ≤ 2 ^ (place + 1))
    gcongr
  have parts : (2 : ℚ) ^ place ≤ (count - 1 : Nat) := by exact_mod_cast below
  have nonneg := (space.width count).value_nonneg
  calc (1 / 2 : ℚ)
      = 1 / 2 ^ (place + 1) * 2 ^ place := by
        rw [pow_succ]
        field_simp
    _ ≤ (space.width count).value * (count - 1 : Nat) := by gcongr

/-- Multiples of the width stay small enough to be rounded. -/
theorem width_mul_small (inside : index < count) :
    (space.width count).mantissa * index < 2 ^ 52 * 2 ^ (space.width count).places := by
  have reach := space.width_mul_le several word inside
  rw [← width_mul, div_le_iff₀ (by positivity)] at reach
  have reached : (space.width count).mantissa * index ≤ space.length * 2 ^ (space.width count).places := by
    exact_mod_cast reach
  have length := space.length_lt
  have unit := Nat.two_pow_pos (space.width count).places
  nlinarith

theorem boundary_rounded : space.Rounded count where
  mono i j le inside := by
    rw [boundary_eq, boundary_eq]
    have small := space.width_mul_small several word inside
    exact Dyadic.round_mono (Dyadic.nearest_mono (by omega) (Nat.mul_le_mul_left _ le))
  zero := by
    rw [boundary_eq, Nat.mul_zero]
    have least : (Dyadic.nearest 0 (2 ^ (space.width count).places)).value ≤ 0 := by
      exact_mod_cast Dyadic.nearest_le_whole (z := 0) (Nat.two_pow_pos _) (by simp)
    refine Nat.le_zero.mp (Nat.le_of_not_lt fun more => ?_)
    have reached := Dyadic.le_round_iff.mp more
    norm_num at reached
    linarith
  within i inside := by
    have length := space.length_lt
    rw [boundary_eq]
    have reach := space.width_mul_le several word inside
    rw [← width_mul] at reach
    have value := Dyadic.nearest_le_whole (Nat.two_pow_pos _) reach
    refine Nat.le_of_not_lt fun more => ?_
    have reached := Dyadic.le_round_iff.mp more
    push_cast at reached
    linarith
  last := by
    rw [boundary_eq, Dyadic.le_round_iff]
    have small := space.width_mul_small several word (by omega : count - 1 < count)
    have half := space.half_le_width_mul several word
    rw [← width_mul, ← pow_one (2 : ℚ)] at half
    have small' : (space.width count).mantissa * (count - 1) < 2 ^ 53 * 2 ^ (space.width count).places := by omega
    have value := Dyadic.half_power_le_nearest small' (by omega) half
    push_cast
    linarith

theorem boundary_lt (fewer : count < space.length) (inside : index + 1 < count) :
    space.boundary count index < space.boundary count (index + 1) := by
  rw [boundary_eq, boundary_eq]
  refine Dyadic.round_nearest_lt (space.width_mul_small several word inside) ?_
  have wide := space.one_lt_width several word fewer
  rw [width_mul, width_mul]
  push_cast
  linarith

end Width

end ReplicaRing.KeySpace
