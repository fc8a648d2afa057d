import Mathlib.Algebra.Order.Field.Rat
import Mathlib.Data.Nat.Log
import Mathlib.Tactic.FieldSimp
import Mathlib.Tactic.Linarith
import Mathlib.Tactic.Positivity
import Mathlib.Tactic.Ring
import ReplicaRing.KeySpace.Segment

/-! How far rounding moves a number. Nothing to which a number could have been rounded lies between the number and what
it is rounded to, so rounding keeps the order of numbers, and what it loses is half a grain at most. The grain is the
unit of the last of 53 places; it grows with the number, and numbers more than one apart are still told apart when they
are rounded to whole ones. -/
namespace ReplicaRing

section Halves

variable {num num' den z : Nat}

theorem quotient_eq (num : Nat) (pos : 0 < den) :
    (num : ℚ) / den = (num / den : Nat) + (num % den : Nat) / (den : ℚ) := by
  have nonzero : (den : ℚ) ≠ 0 := by positivity
  rw [add_div' _ _ _ nonzero, div_left_inj' nonzero]
  exact_mod_cast (Nat.div_add_mod' num den).symm

theorem roundHalfEven_near (num : Nat) (pos : 0 < den) : |(roundHalfEven num den : ℚ) - num / den| ≤ 1 / 2 := by
  have den_pos : (0 : ℚ) < den := by exact_mod_cast pos
  have nonneg : (0 : ℚ) ≤ ((num % den : Nat) : ℚ) / den := by positivity
  rw [quotient_eq num pos, abs_le]
  simp only [roundHalfEven]
  split
  · rename_i less
    have below : ((num % den : Nat) : ℚ) / den < 1 / 2 := by
      rw [div_lt_div_iff₀ den_pos two_pos]
      exact_mod_cast (by omega : num % den * 2 < 1 * den)
    constructor <;> linarith
  split
  · rename_i more
    have above : 1 / 2 < ((num % den : Nat) : ℚ) / den := by
      rw [div_lt_div_iff₀ two_pos den_pos]
      exact_mod_cast (by omega : 1 * den < num % den * 2)
    have inside : ((num % den : Nat) : ℚ) / den < 1 := by
      rw [div_lt_one den_pos]
      exact_mod_cast Nat.mod_lt num pos
    push_cast
    constructor <;> linarith
  · have halfway : ((num % den : Nat) : ℚ) / den = 1 / 2 := by
      rw [div_eq_div_iff den_pos.ne' two_ne_zero]
      exact_mod_cast (by omega : num % den * 2 = 1 * den)
    have least : (0 : ℚ) ≤ ((num / den % 2 : Nat) : ℚ) := by positivity
    have most : ((num / den % 2 : Nat) : ℚ) ≤ 1 := by exact_mod_cast (by omega : num / den % 2 ≤ 1)
    push_cast
    constructor <;> linarith

/-- Rounding moves no quotient past a whole number. -/
theorem le_roundHalfEven (pos : 0 < den) (below : (z : ℚ) ≤ num / den) : z ≤ roundHalfEven num den := by
  obtain ⟨near, -⟩ := abs_le.mp (roundHalfEven_near num pos)
  refine Nat.le_of_not_lt fun less => ?_
  have short : (roundHalfEven num den : ℚ) + 1 ≤ z := by exact_mod_cast less
  linarith

theorem roundHalfEven_le (pos : 0 < den) (above : (num : ℚ) / den ≤ z) : roundHalfEven num den ≤ z := by
  obtain ⟨-, near⟩ := abs_le.mp (roundHalfEven_near num pos)
  refine Nat.le_of_not_lt fun more => ?_
  have long : (z : ℚ) + 1 ≤ roundHalfEven num den := by exact_mod_cast more
  linarith

theorem roundHalfEven_mono (pos : 0 < den) (le : num ≤ num') : roundHalfEven num den ≤ roundHalfEven num' den := by
  rcases Nat.eq_or_lt_of_le le with rfl | less
  · exact Nat.le_refl _
  obtain ⟨-, near⟩ := abs_le.mp (roundHalfEven_near num pos)
  obtain ⟨near', -⟩ := abs_le.mp (roundHalfEven_near num' pos)
  have den_pos : (0 : ℚ) < den := by exact_mod_cast pos
  have apart : (num : ℚ) / den < num' / den := by gcongr
  refine Nat.le_of_not_lt fun more => ?_
  have long : (roundHalfEven num' den : ℚ) + 1 ≤ roundHalfEven num den := by exact_mod_cast more
  linarith

end Halves

namespace Dyadic

def value (x : Dyadic) : ℚ := x.mantissa / 2 ^ x.places

def grain (x : Dyadic) : ℚ := 1 / 2 ^ x.places

theorem grain_pos (x : Dyadic) : 0 < x.grain := by unfold grain; positivity

theorem value_nonneg (x : Dyadic) : 0 ≤ x.value := by unfold value; positivity

theorem value_eq (x : Dyadic) : x.value = x.mantissa * x.grain := by
  rw [value, grain, mul_one_div]

/-- To whole numbers halves are rounded up. -/
theorem le_round_iff {x : Dyadic} {z : Nat} : z ≤ x.round ↔ (z : ℚ) ≤ x.value + 1 / 2 := by
  have unit : (0 : ℚ) < 2 ^ x.places := by positivity
  have places : (2 : ℚ) ^ (x.places + 1) = 2 * 2 ^ x.places := pow_succ' ..
  rw [round, Nat.pow_eq, Nat.pow_eq, Nat.le_div_iff_mul_le (by positivity), value, div_add_div _ _ unit.ne' two_ne_zero,
    le_div_iff₀ (by positivity), ← Nat.cast_le (α := ℚ)]
  push_cast
  rw [places]
  constructor <;> intro <;> linarith

theorem round_mono {x y : Dyadic} (le : x.value ≤ y.value) : x.round ≤ y.round := by
  have reached : (x.round : ℚ) ≤ x.value + 1 / 2 := le_round_iff.mp (Nat.le_refl _)
  exact le_round_iff.mpr (by linarith)

/-- What is short of the middle between two whole numbers is short of it by a grain at least. -/
theorem add_grain_le {x : Dyadic} {z : Nat} (places : 1 ≤ x.places) (short : x.value < z + 1 / 2) :
    x.value + x.grain ≤ z + 1 / 2 := by
  have unit := x.grain_pos
  have halves : (((2 * z + 1) * 2 ^ (x.places - 1) : Nat) : ℚ) * x.grain = z + 1 / 2 := by
    have split : (2 : ℚ) ^ x.places = 2 ^ (x.places - 1) * 2 := by rw [← pow_succ, Nat.sub_add_cancel places]
    rw [grain, split]
    push_cast
    field_simp
  rw [← halves, value_eq, mul_lt_mul_iff_of_pos_right unit] at short
  have counted : x.mantissa + 1 ≤ (2 * z + 1) * 2 ^ (x.places - 1) := by exact_mod_cast short
  calc x.value + x.grain
      = (x.mantissa + 1 : Nat) * x.grain := by rw [value_eq]; push_cast; ring
    _ ≤ ((2 * z + 1) * 2 ^ (x.places - 1) : Nat) * x.grain := by gcongr
    _ = z + 1 / 2 := halves

section Nearest

variable {num num' den z : Nat}

/-- Counted in grains the quotient is the number that the mantissa is rounded from. -/
theorem grains_eq (num den : Nat) :
    ((num * 2 ^ (nearest num den).places : Nat) : ℚ) / den * (nearest num den).grain = num / den := by
  rw [grain]
  push_cast
  field_simp

theorem mantissa_nearest (num den : Nat) :
    (nearest num den).mantissa = roundHalfEven (num * 2 ^ (nearest num den).places) den := rfl

/-- The nearest value is half a grain away at most. -/
theorem nearest_near (num : Nat) (pos : 0 < den) :
    |(nearest num den).value - num / den| ≤ (nearest num den).grain / 2 := by
  have unit := (nearest num den).grain_pos
  have near := roundHalfEven_near (num * 2 ^ (nearest num den).places) pos
  rw [← mantissa_nearest] at near
  calc |(nearest num den).value - num / den|
      = |(nearest num den).mantissa - ((num * 2 ^ (nearest num den).places : Nat) : ℚ) / den| *
          (nearest num den).grain := by
        rw [value_eq, ← grains_eq num den, ← sub_mul, abs_mul, abs_of_pos unit]
    _ ≤ 1 / 2 * (nearest num den).grain := by gcongr
    _ = (nearest num den).grain / 2 := by ring

/-- A number of whole grains is not passed. -/
theorem le_nearest (pos : 0 < den) (below : z * (nearest num den).grain ≤ num / den) :
    z * (nearest num den).grain ≤ (nearest num den).value := by
  have unit := (nearest num den).grain_pos
  rw [← grains_eq num den, mul_le_mul_iff_of_pos_right unit] at below
  rw [value_eq, mul_le_mul_iff_of_pos_right unit]
  exact_mod_cast le_roundHalfEven pos below

theorem nearest_le (pos : 0 < den) (above : num / den ≤ z * (nearest num den).grain) :
    (nearest num den).value ≤ z * (nearest num den).grain := by
  have unit := (nearest num den).grain_pos
  rw [← grains_eq num den, mul_le_mul_iff_of_pos_right unit] at above
  rw [value_eq, mul_le_mul_iff_of_pos_right unit]
  exact_mod_cast roundHalfEven_le pos above

theorem nearest_le_whole (pos : 0 < den) (above : (num : ℚ) / den ≤ z) : (nearest num den).value ≤ z := by
  have whole : ((z * 2 ^ (nearest num den).places : Nat) : ℚ) * (nearest num den).grain = z := by
    rw [grain]
    push_cast
    field_simp
  rw [← whole] at above ⊢
  exact nearest_le pos above

/-- The leading place is where it is said to be. -/
theorem lt_leadingPlace (shift num : Nat) (pos : 0 < den) :
    num * 2 ^ shift < 2 ^ (leadingPlace shift num den + 1) * den := by
  rw [leadingPlace, Nat.pow_eq, ← Nat.div_lt_iff_lt_mul pos]
  exact Nat.lt_log2_self

theorem leadingPlace_le (shift : Nat) (pos : 0 < den) (tall : den ≤ num * 2 ^ shift) :
    2 ^ leadingPlace shift num den * den ≤ num * 2 ^ shift := by
  rw [leadingPlace, Nat.pow_eq, ← Nat.le_div_iff_mul_le pos]
  exact Nat.log2_self_le (Nat.div_pos tall pos).ne'

theorem leadingPlace_mono (shift den : Nat) (le : num ≤ num') :
    leadingPlace shift num den ≤ leadingPlace shift num' den := by
  rw [leadingPlace, leadingPlace, Nat.log2_eq_log_two, Nat.log2_eq_log_two]
  exact Nat.log_mono_right (Nat.div_le_div_right (Nat.mul_le_mul_right _ le))

theorem leadingPlace_le_of_lt {shift places : Nat} (small : num * 2 ^ shift < 2 ^ (places + 1) * den) :
    leadingPlace shift num den ≤ places := by
  have pos : 0 < den := Nat.pos_of_ne_zero (by rintro rfl; simp at small)
  rw [leadingPlace, Nat.pow_eq, Nat.log2_eq_log_two]
  exact Nat.le_of_lt_succ (Nat.log_lt_of_lt_pow' (Nat.succ_ne_zero _) ((Nat.div_lt_iff_lt_mul pos).mpr small))

/-- The unit of the last place is 52 places below the leading one. -/
theorem grain_eq (small : num < 2 ^ 53 * den) :
    (nearest num den).grain = 2 ^ leadingPlace 64 num den / 2 ^ 116 := by
  have low : leadingPlace 64 num den ≤ 116 := leadingPlace_le_of_lt (by omega)
  have all : (2 : ℚ) ^ (nearest num den).places * 2 ^ leadingPlace 64 num den = 2 ^ 116 := by
    rw [← pow_add]
    congr 1
    exact Nat.sub_add_cancel low
  rw [grain, div_eq_div_iff (by positivity) (by positivity), one_mul, mul_comm, all]

/-- The mantissa has 53 bits at most ... -/
theorem lt_grains (small : num < 2 ^ 53 * den) : (num : ℚ) / den < 2 ^ 53 * (nearest num den).grain := by
  have pos : 0 < den := by omega
  have den_pos : (0 : ℚ) < den := by exact_mod_cast pos
  have below : (num : ℚ) * 2 ^ 64 < 2 ^ (leadingPlace 64 num den + 1) * den := by
    exact_mod_cast lt_leadingPlace 64 num pos
  rw [pow_succ _ (leadingPlace 64 num den)] at below
  rw [grain_eq small, div_lt_iff₀ den_pos]
  linarith

/-- ... and no fewer, unless the quotient is tiny. -/
theorem grains_le (small : num < 2 ^ 53 * den) (tall : den ≤ num * 2 ^ 64) :
    2 ^ 52 * (nearest num den).grain ≤ num / den := by
  have pos : 0 < den := by omega
  have den_pos : (0 : ℚ) < den := by exact_mod_cast pos
  have above : (2 : ℚ) ^ leadingPlace 64 num den * den ≤ num * 2 ^ 64 := by
    exact_mod_cast leadingPlace_le 64 pos tall
  rw [grain_eq small, le_div_iff₀ den_pos]
  linarith

theorem grains_le_value (small : num < 2 ^ 53 * den) (tall : den ≤ num * 2 ^ 64) :
    2 ^ 52 * (nearest num den).grain ≤ (nearest num den).value := by
  have pos : 0 < den := by omega
  have grains := grains_le small tall
  exact_mod_cast le_nearest (z := 2 ^ 52) pos (by exact_mod_cast grains)

theorem value_le_grains (small : num < 2 ^ 53 * den) :
    (nearest num den).value ≤ 2 ^ 53 * (nearest num den).grain := by
  have pos : 0 < den := by omega
  have grains := (lt_grains small).le
  exact_mod_cast nearest_le (z := 2 ^ 53) pos (by exact_mod_cast grains)

theorem grain_mono (small : num' < 2 ^ 53 * den) (le : num ≤ num') :
    (nearest num den).grain ≤ (nearest num' den).grain := by
  rw [grain_eq small, grain_eq (Nat.lt_of_le_of_lt le small)]
  have places := leadingPlace_mono 64 den le
  gcongr
  exact one_le_two

theorem nearest_mono (small : num' < 2 ^ 53 * den) (le : num ≤ num') :
    (nearest num den).value ≤ (nearest num' den).value := by
  have pos : 0 < den := by omega
  rcases Nat.lt_or_eq_of_le (leadingPlace_mono 64 den le) with farther | level
  · -- The smaller mantissa may have grown to 54 bits, and is then the least one of the next place.
    have small_too := Nat.lt_of_le_of_lt le small
    have tall : den ≤ num' * 2 ^ 64 := by
      refine Nat.le_of_not_lt fun tiny => ?_
      rw [leadingPlace, leadingPlace, Nat.pow_eq, Nat.div_eq_of_lt tiny] at farther
      exact Nat.not_lt_zero _ farther
    calc (nearest num den).value
        ≤ 2 ^ 53 * (nearest num den).grain := value_le_grains small_too
      _ ≤ 2 ^ 52 * (nearest num' den).grain := by
        rw [grain_eq small, grain_eq small_too]
        have double : (2 : ℚ) ^ (leadingPlace 64 num den + 1) ≤ 2 ^ leadingPlace 64 num' den := by
          gcongr
          · exact one_le_two
          · exact farther
        rw [pow_succ] at double
        linarith
      _ ≤ (nearest num' den).value := grains_le_value small tall
  · have same : (nearest num den).places = (nearest num' den).places := congrArg (116 - ·) level
    rw [value, value, mantissa_nearest, mantissa_nearest, same]
    gcongr
    exact roundHalfEven_mono pos (Nat.mul_le_mul_right _ le)

/-- The error is small next to the value. -/
theorem nearest_error (small : num < 2 ^ 53 * den) (tall : den ≤ num * 2 ^ 64) :
    |(nearest num den).value - num / den| * 2 ^ 53 ≤ (nearest num den).value := by
  have pos : 0 < den := by omega
  have near := nearest_near num pos
  have grains := grains_le_value small tall
  linarith

/-- A half, a fourth and so on are not passed, however coarse the grains are. -/
theorem half_power_le_nearest {k : Nat} (small : num < 2 ^ 53 * den) (le : k ≤ 64)
    (below : 1 / 2 ^ k ≤ (num : ℚ) / den) : 1 / 2 ^ k ≤ (nearest num den).value := by
  have pos : 0 < den := by omega
  have den_pos : (0 : ℚ) < den := by exact_mod_cast pos
  rcases Nat.le_total k (nearest num den).places with fine | coarse
  · have whole : ((2 ^ ((nearest num den).places - k) : Nat) : ℚ) * (nearest num den).grain = 1 / 2 ^ k := by
      have split : (2 : ℚ) ^ (nearest num den).places = 2 ^ ((nearest num den).places - k) * 2 ^ k := by
        rw [← pow_add, Nat.sub_add_cancel fine]
      rw [grain, split]
      push_cast
      field_simp
    rw [← whole] at below ⊢
    exact le_nearest pos below
  · have tall : den ≤ num * 2 ^ 64 := by
      rw [div_le_div_iff₀ (by positivity) den_pos] at below
      have reached : 1 * den ≤ num * 2 ^ k := by exact_mod_cast below
      have wide : num * 2 ^ k ≤ num * 2 ^ 64 := Nat.mul_le_mul_left _ (Nat.pow_le_pow_right (by decide) le)
      omega
    have one : 1 / 2 ^ k ≤ (nearest num den).grain := by
      rw [grain]
      gcongr
      exact one_le_two
    have unit := (nearest num den).grain_pos
    have grains := grains_le_value small tall
    linarith

/-- Quotients more than one apart are rounded to different whole numbers. -/
theorem round_nearest_lt (small : num' < 2 ^ 52 * den) (apart : (num : ℚ) / den + 1 < num' / den) :
    (nearest num den).round < (nearest num' den).round := by
  have pos : 0 < den := by omega
  have den_pos : (0 : ℚ) < den := by exact_mod_cast pos
  have small' : num' < 2 ^ 53 * den := by omega
  have le : num ≤ num' := by
    have less : (num : ℚ) / den ≤ num' / den := by linarith
    exact_mod_cast (div_le_div_iff_of_pos_right den_pos).mp less
  have finer := grain_mono small' le
  have unit := (nearest num' den).grain_pos
  obtain ⟨-, below⟩ := abs_le.mp (nearest_near num pos)
  obtain ⟨above, -⟩ := abs_le.mp (nearest_near num' pos)
  have reached : ((nearest num den).round : ℚ) ≤ (nearest num den).value + 1 / 2 := le_round_iff.mp (Nat.le_refl _)
  refine Nat.lt_of_not_le fun caught => ?_
  -- Else the larger value is at least a grain short of where the next whole number begins.
  have short : (nearest num' den).value < (nearest num den).round + 1 / 2 := by
    have missed : ¬ (nearest num den).round + 1 ≤ (nearest num' den).round := by omega
    rw [le_round_iff, not_le] at missed
    push_cast at missed
    linarith
  have places : 1 ≤ (nearest num' den).places := by
    have low : leadingPlace 64 num' den ≤ 115 := leadingPlace_le_of_lt (by omega)
    change 1 ≤ 116 - leadingPlace 64 num' den
    omega
  have grain_short := add_grain_le places short
  linarith

end Nearest
end Dyadic
end ReplicaRing
