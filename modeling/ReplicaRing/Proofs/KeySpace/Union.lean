import ReplicaRing.Proofs.KeySpace.Walk

/-! What unions of arcs contain. Everything is measured in steps from the start of an arc, so that wrapping around
is dealt with once for two arcs, in `offset_via`. What a union can be is said once, in `union_cases`; it is exact
unless a gap on both sides keeps the arcs apart. -/
namespace ReplicaRing.KeyRange

variable {a b x : KeyRange} {slot : Nat}

@[simp] theorem widened_isFull : a.widened.isFull = true := by simp [isFull, widened]

/-- A slot is as far from the start of one arc as it is from the start of another and that start from
the first, less a turn. -/
theorem offset_via (slot : Nat) (same : a.space = b.space) :
    a.offset b.start ≤ a.offset slot ∧ b.offset slot = a.offset slot - a.offset b.start ∨
    a.offset slot < a.offset b.start ∧
      b.offset slot = a.offset slot + a.space.length - a.offset b.start := by
  have onward : a.offset slot = (a.offset b.start + b.offset slot) % a.space.length := by
    rw [← offset_add, ← offset_mod a (b.start + _), same, start_add_offset, ← same, offset_mod]
  have between := a.offset_lt b.start
  have far : b.offset slot < a.space.length := same ▸ b.offset_lt slot
  rcases Nat.lt_or_ge (a.offset b.start + b.offset slot) a.space.length with within | around
  · rw [Nat.mod_eq_of_lt within] at onward
    omega
  · rw [Nat.mod_eq_sub_mod around, Nat.mod_eq_of_lt (by omega)] at onward
    omega

/-- An arc that reaches over another contains just what one of the two does. -/
theorem containsSlot_extendOver (same : a.space = b.space) (reaches : a.extendOver b = some x) :
    x.containsSlot slot = true ↔ a.containsSlot slot = true ∨ b.containsSlot slot = true := by
  simp only [extendOver] at reaches
  split at reaches
  · contradiction
  · rename_i near
    cases reaches
    have from_a : a.offset slot < a.space.length := a.offset_lt slot
    have from_b := offset_via slot same
    have within := b.length_le
    rw [← same] at within
    simp only [containsSlot_iff]
    change a.offset slot < min (max a.length (a.offset b.start + b.length)) a.space.length ↔ _
    omega

section Apart

def Reaches (a b : KeyRange) : Prop := a.containsSlot b.start = true ∨ b.start = a.stop % a.space.length

/-- Neither arc is empty, and there is a gap between them on both sides. -/
def Apart (a b : KeyRange) : Prop :=
  a.isEmpty = false ∧ b.isEmpty = false ∧ ¬ a.Reaches b ∧ ¬ b.Reaches a

instance : Decidable (a.Reaches b) := inferInstanceAs (Decidable (_ ∨ _))

instance : Decidable (Apart a b) := inferInstanceAs (Decidable (_ ∧ _))

theorem Apart.symm (apart : Apart a b) : Apart b a :=
  ⟨apart.2.1, apart.1, apart.2.2.2, apart.2.2.1⟩

theorem reaches_iff (same : a.space = b.space) : a.Reaches b ↔ a.offset b.start ≤ a.length := by
  have start : b.start % a.space.length = b.start := Nat.mod_eq_of_lt (same ▸ b.start_lt)
  have inside := a.offset_lt b.start
  rw [Reaches, containsSlot_iff]
  constructor
  · rintro (within | after)
    · exact Nat.le_of_lt within
    · rw [after, offset_mod, stop, offset_add, offset_start, Nat.zero_add]
      exact Nat.mod_le _ _
  · intro near
    rcases Nat.lt_or_eq_of_le near with within | after
    · exact .inl within
    · refine .inr ?_
      rw [stop, ← after, start_add_offset, start]

theorem extendOver_eq_none_iff (same : a.space = b.space) : a.extendOver b = none ↔ ¬ a.Reaches b := by
  rw [reaches_iff same, Nat.not_le, extendOver]
  split <;> simp_all

/-- The slot right after one of two arcs that are apart is in neither. -/
theorem Apart.gap (apart : Apart a b) (same : a.space = b.space) :
    a.containsSlot a.stop = false ∧ b.containsSlot a.stop = false := by
  obtain ⟨a_nonempty, b_nonempty, before, behind⟩ := apart
  rw [reaches_iff same, Nat.not_le] at before
  rw [reaches_iff same.symm, Nat.not_le] at behind
  have between := a.offset_lt b.start
  have after : a.offset a.stop = a.length := a.offset_start_add (Nat.lt_trans before between)
  have from_b := offset_via a.stop same
  have from_b_start := offset_via a.start same
  rw [after] at from_b
  rw [offset_start] at from_b_start
  simp only [containsSlot, decide_eq_false_iff_not, Nat.not_lt]
  omega

end Apart

section Union

/-- A union is one of the arcs where the other is empty, one of them grown over the other, or everything. -/
theorem union_cases (same : a.space = b.space) :
    b.isEmpty = true ∧ a.union b = a ∨ a.isEmpty = true ∧ a.union b = b ∨
    a.extendOver b = some (a.union b) ∨ b.extendOver a = some (a.union b) ∨
    (a.isFull = true ∨ b.isFull = true ∨ Apart a b) ∧ a.union b = a.widened := by
  unfold union
  split
  · rename_i empty
    exact .inl ⟨empty, rfl⟩
  split
  · rename_i empty
    exact .inr (.inl ⟨empty, rfl⟩)
  split
  · rename_i full
    rw [Bool.or_eq_true] at full
    exact .inr (.inr (.inr (.inr ⟨full.imp_right .inl, rfl⟩)))
  split
  · rename_i reaches_b reaches_a
    split
    · exact .inr (.inr (.inr (.inl reaches_a)))
    · exact .inr (.inr (.inl reaches_b))
  · rename_i reaches_b _
    exact .inr (.inr (.inl reaches_b))
  · rename_i reaches_a
    exact .inr (.inr (.inr (.inl reaches_a)))
  · rename_i b_nonempty a_nonempty _ _ _ before behind
    rw [Bool.not_eq_true] at a_nonempty b_nonempty
    rw [extendOver_eq_none_iff same] at before
    rw [extendOver_eq_none_iff same.symm] at behind
    exact .inr (.inr (.inr (.inr ⟨.inr (.inr ⟨a_nonempty, b_nonempty, before, behind⟩), rfl⟩)))

theorem space_extendOver (reaches : a.extendOver b = some x) : x.space = a.space := by
  simp only [extendOver] at reaches
  split at reaches <;> cases reaches
  rfl

theorem space_union (same : a.space = b.space) : (a.union b).space = a.space := by
  rcases union_cases same with ⟨-, made⟩ | ⟨-, made⟩ | reaches | reaches | ⟨-, made⟩
  · rw [made]
  · rw [made, same]
  · exact space_extendOver reaches
  · exact (space_extendOver reaches).trans same.symm
  · rw [made, widened]

/-- Unless there is a gap on both sides, a union contains just what its parts do. -/
theorem containsSlot_union_iff (same : a.space = b.space) (near : ¬ Apart a b) :
    (a.union b).containsSlot slot = true ↔ a.containsSlot slot = true ∨ b.containsSlot slot = true := by
  rcases union_cases same with ⟨empty, made⟩ | ⟨empty, made⟩ | reaches | reaches | ⟨full, made⟩
  · simp [made, containsSlot_of_isEmpty empty]
  · simp [made, containsSlot_of_isEmpty empty]
  · exact containsSlot_extendOver same reaches
  · rw [containsSlot_extendOver same.symm reaches, or_comm]
  · rw [made, containsSlot_of_isFull widened_isFull]
    rcases full with full | full | apart
    · simp [containsSlot_of_isFull full]
    · simp [containsSlot_of_isFull full]
    · exact absurd apart near

theorem union_isFull (same : a.space = b.space) (apart : Apart a b) : (a.union b).isFull = true := by
  obtain ⟨a_nonempty, b_nonempty, before, behind⟩ := id apart
  rcases union_cases same with ⟨empty, -⟩ | ⟨empty, -⟩ | reaches | reaches | ⟨-, made⟩
  · simp [empty] at b_nonempty
  · simp [empty] at a_nonempty
  · simp [(extendOver_eq_none_iff same).mpr before] at reaches
  · simp [(extendOver_eq_none_iff same.symm).mpr behind] at reaches
  · rw [made, widened_isFull]

theorem containsSlot_union (same : a.space = b.space)
    (covered : a.containsSlot slot = true ∨ b.containsSlot slot = true) :
    (a.union b).containsSlot slot = true := by
  by_cases apart : Apart a b
  · exact containsSlot_of_isFull (union_isFull same apart)
  · exact (containsSlot_union_iff same apart).mpr covered

theorem containsSlot_union_comm (same : a.space = b.space) (slot : Nat) :
    (a.union b).containsSlot slot = (b.union a).containsSlot slot := by
  by_cases apart : Apart a b
  · rw [containsSlot_of_isFull (union_isFull same apart), containsSlot_of_isFull (union_isFull same.symm apart.symm)]
  · rw [Bool.eq_iff_iff, containsSlot_union_iff same apart,
      containsSlot_union_iff same.symm (mt Apart.symm apart), or_comm]

end Union

section Alike

variable (same : a.space = b.space) (alike : ∀ slot, a.containsSlot slot = b.containsSlot slot)
  (nonempty : a.isEmpty = false) (partially : a.isFull = false)
include same alike nonempty partially

/-- An arc that is not everything has a slot before its start that it does not contain. -/
theorem start_eq_of_alike : a.start = b.start := by
  have shorter : a.length < a.space.length := Nat.lt_of_le_of_ne a.length_le (by simpa [isFull] using partially)
  let before := a.start + (a.space.length - 1)
  have last : a.offset before = a.space.length - 1 := a.offset_start_add (by omega)
  have entered : b.offset a.start < b.length := by
    rw [← containsSlot_iff, ← alike]
    exact a.containsSlot_start nonempty
  have outside : b.length ≤ b.offset before := by
    rw [← Nat.not_lt, ← containsSlot_iff, ← alike, containsSlot_iff, last]
    omega
  have from_start := offset_via a.start same
  have from_before := offset_via before same
  have between := a.offset_lt b.start
  rw [offset_start] at from_start
  rw [last] at from_before
  have together : a.offset b.start = 0 := by omega
  have there := a.start_add_offset b.start
  rwa [together, Nat.add_zero, Nat.mod_eq_of_lt a.start_lt, same, Nat.mod_eq_of_lt b.start_lt] at there

theorem eq_of_alike : a = b := by
  have start := start_eq_of_alike same alike nonempty partially
  have length : a.length = b.length := Nat.le_antisymm
    ((contained_iff_length_le same start).mp fun slot => (alike slot ▸ ·))
    ((contained_iff_length_le same.symm start.symm).mp fun slot => (alike slot ▸ ·))
  cases a
  cases b
  simp_all

end Alike

/-- A union is exact or everything. It is an arc of the same space that contains just what one of its parts does,
unless they are apart: then it is everything, as some slot is in neither. So it never leaves anything out, and the
two unions of two arcs contain the same; they are one arc unless they are everything or nothing. -/
theorem union_exact_or_full (a b : KeyRange) (same : a.space = b.space) :
    let u := a.union b
    (u.space = a.space ∧ u.start < a.space.length ∧ u.length ≤ a.space.length) ∧
    (¬ Apart a b → ∀ slot, u.containsSlot slot = true ↔ a.containsSlot slot = true ∨ b.containsSlot slot = true) ∧
    (Apart a b → u.isFull = true ∧ ∃ slot, a.containsSlot slot = false ∧ b.containsSlot slot = false) ∧
    (∀ slot, a.containsSlot slot = true ∨ b.containsSlot slot = true → u.containsSlot slot = true) ∧
    (∀ slot, u.containsSlot slot = (b.union a).containsSlot slot) ∧
    (u = b.union a ∨ u.isFull = true ∨ a.isEmpty = true ∧ b.isEmpty = true) := by
  intro u
  have own : u.space = a.space := space_union same
  refine ⟨⟨own, own ▸ u.start_lt, own ▸ u.length_le⟩, fun near slot => containsSlot_union_iff same near,
    fun apart => ⟨union_isFull same apart, a.stop, apart.gap same⟩, fun slot => containsSlot_union same,
    containsSlot_union_comm same, ?_⟩
  cases full : u.isFull with
  | true => exact .inr (.inl rfl)
  | false =>
    cases empty : u.isEmpty with
    | false =>
      have own' : (b.union a).space = b.space := space_union same.symm
      exact .inl (eq_of_alike (own.trans (same.trans own'.symm)) (containsSlot_union_comm same) empty full)
    | true =>
      have nothing (x : KeyRange) (part : x.containsSlot x.start = true → u.containsSlot x.start = true) :
          x.isEmpty = true := by
        cases x_empty : x.isEmpty with
        | true => rfl
        | false => simpa [containsSlot_of_isEmpty empty] using part (x.containsSlot_start x_empty)
      exact .inr (.inr ⟨nothing a fun within => containsSlot_union same (.inl within),
        nothing b fun within => containsSlot_union same (.inr within)⟩)

/-- An arc that wraps around, with one that starts within it and one that is apart from it. -/
theorem wrapped_union :
    let a : KeyRange := ⟨.standard, 350, 20, by decide, by decide⟩
    let b : KeyRange := ⟨.standard, 5, 10, by decide, by decide⟩
    let c : KeyRange := ⟨.standard, 100, 10, by decide, by decide⟩
    a.space = b.space ∧ ¬ Apart a b ∧ Apart a c ∧
      (∀ slot, (a.union b).containsSlot slot = true ↔ a.containsSlot slot = true ∨ b.containsSlot slot = true) ∧
      a.union b = b.union a ∧ (a.union c).isFull = true := by
  intro a b c
  have near : ¬ Apart a b := by decide
  have apart : Apart a c := by decide
  obtain ⟨-, contains, -, -, -, one⟩ := union_exact_or_full a b rfl
  obtain ⟨-, -, full, -, -, -⟩ := union_exact_or_full a c rfl
  have proper : ¬ ((a.union b).isFull = true ∨ a.isEmpty = true ∧ b.isEmpty = true) := by decide
  exact ⟨rfl, near, apart, contains near, one.resolve_right proper, (full apart).1⟩

end ReplicaRing.KeyRange
