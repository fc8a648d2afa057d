import Mathlib.Data.Nat.Count
import ReplicaRing.Proofs.KeySpace.Walk

/-! Coverage as a count of slots. Filling marks the slots of an arc and no others, whatever the buffer, so filling one
arc after another marks what any of them covers. -/
namespace ReplicaRing

def Marks (here : Nat → Bool) (before after : Array Bool) : Prop :=
  ∀ slot, after[slot]? = before[slot]?.map (· || here slot)

namespace Marks

variable {here : Nat → Bool} {before after : Array Bool}

theorem foldl {α : Type} {step : Array Bool → α → Array Bool} {here : α → Nat → Bool}
    (marks : ∀ buffer x, Marks (here x) buffer (step buffer x)) (xs : List α) (buffer : Array Bool) :
    Marks (fun slot => xs.any (here · slot)) buffer (xs.foldl step buffer) := by
  induction xs generalizing buffer with
  | nil => simp [Marks]
  | cons x xs ih =>
    intro slot
    rw [List.foldl_cons, ih, marks, Option.map_map]
    simp only [List.any_cons, Function.comp_def, Bool.or_assoc]

theorem setIfInBounds (buffer : Array Bool) (i : Nat) : Marks (i == ·) buffer (buffer.setIfInBounds i true) := by
  intro slot
  rw [Array.getElem?_setIfInBounds]
  by_cases here : i = slot
  · subst here
    by_cases inside : i < buffer.size <;> simp [inside]
  · simp [here, beq_false_of_ne here]

theorem size_eq (marks : Marks here before after) : after.size = before.size := by
  have outside (slot : Nat) : after.size ≤ slot ↔ before.size ≤ slot := by
    rw [← Array.getElem?_eq_none_iff, ← Array.getElem?_eq_none_iff, marks, Option.map_eq_none_iff]
  exact Nat.le_antisymm ((outside _).mpr (Nat.le_refl _)) ((outside _).mp (Nat.le_refl _))

/-- A blank buffer that was marked holds as many marks as there were slots to mark. -/
theorem count_of_blank {size : Nat} (marks : Marks here (Array.replicate size false) after) :
    after.count true = Nat.count (here · = true) size := by
  have marked : after.toList = (List.range size).map here := by
    refine List.ext_getElem? fun slot => ?_
    rw [Array.getElem?_toList, marks, Array.getElem?_replicate, List.getElem?_map]
    by_cases inside : slot < size <;> simp [inside]
  rw [← Array.count_toList, marked, List.count_eq_countP, List.countP_map, Nat.count]
  exact List.countP_congr fun slot _ => by simp

end Marks

namespace KeyRange

variable (r : KeyRange)

def covers (slot : Nat) : Bool := slot < r.space.length && r.containsSlot slot

theorem fill_marks (buffer : Array Bool) : Marks r.covers buffer (r.fill buffer) := by
  have stepwise := Marks.foldl (fun buffer i => Marks.setIfInBounds buffer ((r.start + i) % r.space.length))
    (List.range r.length) buffer
  have there : r.covers = fun slot => (List.range r.length).any fun i => (r.start + i) % r.space.length == slot := by
    funext slot
    rw [Bool.eq_iff_iff, covers, Bool.and_eq_true, decide_eq_true_iff, containsSlot_iff_walk]
    simp only [List.any_eq_true, List.mem_range, beq_iff_eq]
    constructor
    · rintro ⟨inside, steps, within, arrives⟩
      exact ⟨steps, within, arrives.trans (Nat.mod_eq_of_lt inside)⟩
    · rintro ⟨steps, within, rfl⟩
      exact ⟨Nat.mod_lt _ r.space.length_pos, steps, within, (Nat.mod_mod ..).symm⟩
  rw [there]
  exact stepwise

/-- Filling marks the slots of an arc that the buffer has, and leaves all others as they are. -/
theorem getElem?_fill (buffer : Array Bool) (slot : Nat) : (r.fill buffer)[slot]? =
    if slot < buffer.size ∧ slot < r.space.length ∧ r.containsSlot slot = true then some true else buffer[slot]? := by
  rw [r.fill_marks buffer, covers]
  by_cases inside : slot < buffer.size
  · by_cases there : slot < r.space.length ∧ r.containsSlot slot = true
    · simp [inside, there]
    · have clear : (decide (slot < r.space.length) && r.containsSlot slot) = false := by simpa using there
      simp [there, clear]
  · simp [inside]

end KeyRange

namespace KeySpace

variable {space : KeySpace} {ranges ranges' : List KeyRange}

theorem coverage_eq_count (space : KeySpace) (ranges : List KeyRange) : space.coverage ranges =
    Nat.count (fun slot => ∃ r ∈ ranges, slot < r.space.length ∧ r.containsSlot slot = true) space.length := by
  have marks := Marks.foldl (fun buffer (r : KeyRange) => r.fill_marks buffer) ranges
    (Array.replicate space.length false)
  rw [coverage, marks.count_of_blank]
  simp only [KeyRange.covers, List.any_eq_true, Bool.and_eq_true, decide_eq_true_iff]

theorem coverage_le_of_subset (more : ranges ⊆ ranges') : space.coverage ranges ≤ space.coverage ranges' := by
  rw [coverage_eq_count, coverage_eq_count]
  refine Nat.count_mono_left fun slot _ covered => ?_
  obtain ⟨r, member, there⟩ := covered
  exact ⟨r, more member, there⟩

/-- Coverage counts covered slots. It is the number of slots of the space that some range contains, each range with
the slot numbers of its own space; filling marks the slots of a range that the buffer has and leaves the others. So
neither order nor repetition of ranges matters, further ranges never take coverage away, and it is a turn at most. -/
theorem coverage_counts_slots (space : KeySpace) (ranges : List KeyRange) :
    space.coverage ranges =
      Nat.count (fun slot => ∃ r ∈ ranges, slot < r.space.length ∧ r.containsSlot slot = true) space.length ∧
    (∀ (r : KeyRange) (buffer : Array Bool), (r.fill buffer).size = buffer.size ∧
      ∀ slot, (r.fill buffer)[slot]? =
        if slot < buffer.size ∧ slot < r.space.length ∧ r.containsSlot slot = true then some true
        else buffer[slot]?) ∧
    (∀ ranges', (∀ r, r ∈ ranges ↔ r ∈ ranges') → space.coverage ranges = space.coverage ranges') ∧
    (∀ ranges', ranges ⊆ ranges' → space.coverage ranges ≤ space.coverage ranges') ∧
    space.coverage ranges ≤ space.length := by
  refine ⟨coverage_eq_count space ranges, fun r buffer => ⟨(r.fill_marks buffer).size_eq, r.getElem?_fill buffer⟩,
    fun ranges' same => ?_, fun ranges' more => coverage_le_of_subset more, ?_⟩
  · exact Nat.le_antisymm (coverage_le_of_subset fun r => (same r).mp) (coverage_le_of_subset fun r => (same r).mpr)
  · rw [coverage_eq_count]
    exact Nat.count_le _

/-- A range that wraps around, with ranges of a shorter and of a longer space, in two orders. -/
theorem coverage_of_foreign :
    let twelve : KeySpace := ⟨12, by decide, by decide⟩
    let own : KeyRange := ⟨twelve, 10, 4, by decide, by decide⟩
    let short : KeyRange := ⟨⟨4, by decide, by decide⟩, 3, 2, by decide, by decide⟩
    let long : KeyRange := ⟨.standard, 358, 9, by decide, by decide⟩
    (∀ r, r ∈ [own, short, long] ↔ r ∈ [long, own, short, own]) ∧ [own, short] ⊆ [own, short, long] ∧
      twelve.coverage [long, own, short, own] = 9 ∧ twelve.coverage [own, short] ≤ 9 := by
  intro twelve own short long
  have same : ∀ r, r ∈ [own, short, long] ↔ r ∈ [long, own, short, own] := by
    intro r
    simp only [List.mem_cons, List.not_mem_nil, or_false]
    tauto
  obtain ⟨counts, -, unordered, -, -⟩ := coverage_counts_slots twelve [own, short, long]
  obtain ⟨-, -, -, grows, -⟩ := coverage_counts_slots twelve [own, short]
  have nine : twelve.coverage [own, short, long] = 9 := counts.trans (by decide)
  have more : [own, short] ⊆ [own, short, long] := by simp
  exact ⟨same, more, (unordered _ same).symm.trans nine, nine ▸ grows _ more⟩

end KeySpace

end ReplicaRing
