import Mathlib.Data.Nat.Count
import Mathlib.Order.Interval.Finset.Nat
import Mathlib.Order.Monotone.Basic
import ReplicaRing.KeySpace.Segment
import ReplicaRing.Proofs.KeySpace.Walk

/-! A circle cut into segments. It is unrolled: cuts lie along an endless walk, and come again a turn later. Between a
cut and a later one lie just the segments on the way, so arcs from cut to cut are made of segments, and every place of
a turn lies in one segment. -/
namespace ReplicaRing.KeySpace

variable {space : KeySpace} {count copies index slot : Nat}

section Cutting

variable {length place : Nat} {cut : Nat → Nat}

/-- Cuts along an endless walk around a circle. -/
structure Cuts (length count : Nat) (cut : Nat → Nat) : Prop where
  mono : Monotone cut
  zero : cut 0 = 0
  turn : ∀ index, cut (index + count) = cut index + length

def Between (cut : Nat → Nat) (index place : Nat) : Prop := cut index ≤ place ∧ place < cut (index + 1)

/-- From a cut to a later one is what lies between the cuts on the way. -/
theorem exists_between_iff (mono : Monotone cut) (index copies place : Nat) :
    (∃ k < copies, Between cut (index + k) place) ↔ cut index ≤ place ∧ place < cut (index + copies) := by
  induction copies with
  | zero => simp
  | succ copies ih =>
    have onward : cut index ≤ cut (index + copies) := mono (Nat.le_add_right ..)
    have next : cut (index + copies) ≤ cut (index + copies + 1) := mono (Nat.le_succ _)
    rw [Nat.exists_lt_succ_right, ih, Between, ← Nat.add_assoc]
    omega

theorem between_unique (mono : Monotone cut) {i j : Nat} (here : Between cut i place) (there : Between cut j place) :
    i = j := by
  have ordered {i j : Nat} (here : Between cut i place) (there : Between cut j place) : ¬ i < j := fun less =>
    Nat.lt_irrefl place (Nat.lt_of_lt_of_le here.2 (Nat.le_trans (mono less) there.1))
  have before := ordered here there
  have after := ordered there here
  omega

namespace Cuts

variable (cuts : Cuts length count cut)
include cuts

theorem count_eq : cut count = length := by
  have turn := cuts.turn 0
  rwa [Nat.zero_add, cuts.zero, Nat.zero_add] at turn

theorem between_add_count : Between cut (index + count) (place + length) ↔ Between cut index place := by
  rw [Between, Nat.add_right_comm, cuts.turn, cuts.turn, Between]
  omega

/-- A place of the first turn lies between cuts of the first or, a turn later, of the second turn. -/
theorem between_mod_iff (inside : place < length) (near : index < count + count) :
    Between cut (index % count) place ↔ Between cut index place ∨ Between cut index (place + length) := by
  have all := cuts.count_eq
  rcases Nat.lt_or_ge index count with first | second
  · have early : cut (index + 1) ≤ cut count := cuts.mono first
    rw [Nat.mod_eq_of_lt first]
    refine ⟨.inl, (Or.resolve_right · fun later => ?_)⟩
    have := later.2
    omega
  · obtain ⟨index, rfl⟩ := Nat.exists_eq_add_of_le' second
    have late : cut count ≤ cut (index + count) := cuts.mono second
    rw [Nat.add_mod_right, Nat.mod_eq_of_lt (by omega), cuts.between_add_count]
    refine ⟨.inr, (Or.resolve_left · fun sooner => ?_)⟩
    have := sooner.1
    omega

/-- What lies on the way from a cut of the first turn, for a turn at most. -/
theorem exists_between_mod_iff (inside : place < length) (first : index < count) (few : copies ≤ count) :
    (∃ k < copies, Between cut ((index + k) % count) place) ↔
      cut index ≤ place ∧ place < cut (index + copies) ∨
        cut index ≤ place + length ∧ place + length < cut (index + copies) := by
  rw [← exists_between_iff cuts.mono, ← exists_between_iff cuts.mono, ← exists_or]
  refine exists_congr fun k => ?_
  rw [← and_or_left]
  exact and_congr_right fun less => cuts.between_mod_iff inside (by omega)

theorem existsUnique_between (inside : place < length) : ∃! index, index < count ∧ Between cut index place := by
  have whole := exists_between_iff cuts.mono 0 count place
  rw [cuts.zero, Nat.zero_add, cuts.count_eq] at whole
  obtain ⟨index, first, here⟩ := whole.mpr ⟨Nat.zero_le _, inside⟩
  rw [Nat.zero_add] at here
  exact ⟨index, ⟨first, here⟩, fun other there => between_unique cuts.mono there.2 here⟩

end Cuts

end Cutting

section Arcs

structure Spans (space : KeySpace) (cut : Nat → Nat) (index copies : Nat) (r : KeyRange) : Prop where
  own : r.space = space
  start : r.start = cut index % space.length
  stop : cut index + r.length = cut (index + copies)

/-- An arc in numbers of the walk, when its start may be put at the end of the turn as well. -/
theorem containsSlot_iff_between {r : KeyRange} {start : Nat} (from_start : r.start = start % r.space.length)
    (within : start ≤ r.space.length) : r.containsSlot slot = true ↔
      start ≤ slot % r.space.length ∧ slot % r.space.length < start + r.length ∨
        start ≤ slot % r.space.length + r.space.length ∧
          slot % r.space.length + r.space.length < start + r.length := by
  have inside : slot % r.space.length < r.space.length := Nat.mod_lt _ r.space.length_pos
  have short := r.length_le
  rw [KeyRange.containsSlot_iff]
  rcases Nat.lt_or_eq_of_le within with less | rfl
  · rw [Nat.mod_eq_of_lt less] at from_start
    rcases r.offset_cases slot with ⟨after, away⟩ | ⟨before, away⟩ <;> omega
  · rw [Nat.mod_self] at from_start
    rcases r.offset_cases slot with ⟨after, away⟩ | ⟨before, away⟩ <;> omega

variable {cut : Nat → Nat} {r : KeyRange}

/-- From a cut to a later one within a turn there is a range. -/
theorem Cuts.exists_spans (cuts : Cuts space.length count cut) (index : Nat) (few : copies ≤ count) :
    ∃ r, Spans space cut index copies r := by
  have onward : cut index ≤ cut (index + copies) := cuts.mono (Nat.le_add_right ..)
  have turn : cut (index + copies) ≤ cut (index + count) := cuts.mono (by omega)
  rw [cuts.turn] at turn
  exact ⟨⟨space, cut index % space.length, cut (index + copies) - cut index, Nat.mod_lt _ space.length_pos, by omega⟩,
    rfl, rfl, Nat.add_sub_cancel' onward⟩

theorem Spans.containsSlot_iff (spans : Spans space cut index copies r) (cuts : Cuts space.length count cut)
    (first : index < count) (few : copies ≤ count) : r.containsSlot slot = true ↔
      ∃ k < copies, Between cut ((index + k) % count) (slot % space.length) := by
  obtain ⟨rfl, start, stop⟩ := spans
  have within : cut index ≤ r.space.length := cuts.count_eq ▸ cuts.mono (Nat.le_of_lt first)
  rw [containsSlot_iff_between start within, stop,
    cuts.exists_between_mod_iff (Nat.mod_lt _ r.space.length_pos) first few]

end Arcs

/-- Of the segments that end with a given one there is one of each length. -/
theorem count_followers {last : Nat} {follows : Nat → Prop} [DecidablePred follows] (inside : last < count)
    (few : copies ≤ count)
    (follows_iff : ∀ index < count, follows index ↔ ∃ k < copies, (index + k) % count = last) :
    Nat.count follows count = copies := by
  have reaches : ∀ index < count, follows index ↔
      index ≤ last ∧ last < index + copies ∨ last + count < index + copies := by
    intro index first
    rw [follows_iff index first]
    constructor
    · rintro ⟨k, less, rfl⟩
      rcases Nat.lt_or_ge (index + k) count with onward | around
      · rw [Nat.mod_eq_of_lt onward]
        omega
      · rw [Nat.mod_eq_sub_mod around, Nat.mod_eq_of_lt (by omega)]
        omega
    · rintro (onward | around)
      · exact ⟨last - index, by omega, by rw [Nat.add_sub_cancel' onward.1, Nat.mod_eq_of_lt inside]⟩
      · refine ⟨last + count - index, by omega, ?_⟩
        rw [Nat.add_sub_cancel' (by omega), Nat.add_mod_right, Nat.mod_eq_of_lt inside]
  have nodes : (Finset.range count).filter follows =
      Finset.Ico (last + 1 - copies) (last + 1) ∪ Finset.Ico (last + 1 + count - copies) count := by
    ext index
    simp only [Finset.mem_filter, Finset.mem_range, Finset.mem_union, Finset.mem_Ico]
    rw [and_congr_right (reaches index)]
    omega
  have apart : Disjoint (Finset.Ico (last + 1 - copies) (last + 1))
      (Finset.Ico (last + 1 + count - copies) count) := by
    refine Finset.disjoint_left.mpr fun index before behind => ?_
    rw [Finset.mem_Ico] at before behind
    omega
  rw [Nat.count_eq_card_filter_range, nodes, Finset.card_union_of_disjoint apart, Nat.card_Ico, Nat.card_Ico]
  omega

end ReplicaRing.KeySpace
