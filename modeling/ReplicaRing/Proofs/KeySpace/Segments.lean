import ReplicaRing.Proofs.KeySpace.Boundary
import ReplicaRing.Proofs.KeySpace.Cuts

/-! Which slots the segments of a divided space contain. Single segments are cut out of the space, so they tile it, and
a range that goes from cut to cut covers the segments it is made of. Ranges of an even division always do. In an uneven
one several cuts may fall on one slot, and a range that goes around from one of these to another is taken for none,
where it should be everything. That takes more segments than slots. -/
namespace ReplicaRing.KeySpace

variable {space : KeySpace} {count copies index slot : Nat}

def Serves (space : KeySpace) (count copies index slot : Nat) : Prop :=
  ∃ r, space.segment index count copies = .ok r ∧ r.containsSlot slot = true

instance : Decidable (space.Serves count copies index slot) :=
  match made : space.segment index count copies with
  | .ok r => decidable_of_iff (r.containsSlot slot = true) (by simp [Serves, made])
  | .error _ => isFalse (by simp [Serves, made])

section Division

variable {cut : Nat → Nat} {r : KeyRange}

/-- Each node alone covers what is between its cut and the next one. -/
structure Division (space : KeySpace) (count : Nat) (cut : Nat → Nat) : Prop where
  cuts : Cuts space.length count cut
  single : ∀ index < count, ∃ r, space.segment index count 1 = .ok r ∧ Spans space cut index 1 r

variable (division : Division space count cut)
include division

theorem Division.serves_one_iff (first : index < count) :
    space.Serves count 1 index slot ↔ Between cut index (slot % space.length) := by
  obtain ⟨r, made, spans⟩ := division.single index first
  simp only [Serves, made, Except.ok.injEq, exists_eq_left',
    spans.containsSlot_iff division.cuts first (by omega : 1 ≤ count), Nat.lt_one_iff, exists_eq_left, Nat.add_zero,
    Nat.mod_eq_of_lt first]

theorem Division.existsUnique_serves_one (slot : Nat) :
    ∃! index, index < count ∧ space.Serves count 1 index slot := by
  obtain ⟨index, ⟨first, here⟩, only⟩ := division.cuts.existsUnique_between (Nat.mod_lt slot space.length_pos)
  exact ⟨index, ⟨first, (division.serves_one_iff first).mpr here⟩, fun other ⟨other_first, there⟩ =>
    only other ⟨other_first, (division.serves_one_iff other_first).mp there⟩⟩

theorem Division.exists_serves_one_iff (pos : 0 < count) (index copies slot : Nat) :
    (∃ k < copies, space.Serves count 1 ((index + k) % count) slot) ↔
      ∃ k < copies, Between cut ((index + k) % count) (slot % space.length) :=
  exists_congr fun _ => and_congr_right fun _ => division.serves_one_iff (Nat.mod_lt _ pos)

/-- A range from cut to cut covers the segments it is made of. -/
theorem Division.containsSlot_iff (spans : Spans space cut index copies r) (first : index < count)
    (few : copies ≤ count) : r.containsSlot slot = true ↔
      ∃ k < copies, space.Serves count 1 ((index + k) % count) slot := by
  rw [division.exists_serves_one_iff (by omega), spans.containsSlot_iff division.cuts first few]

/-- If all ranges go from cut to cut, as many nodes cover a slot as there are copies. -/
theorem Division.count_serves (pos : 0 < count)
    (made : ∀ index < count, ∃ r, space.segment index count copies = .ok r ∧
      Spans space cut index (min copies count) r) (slot : Nat) :
    Nat.count (fun index => space.Serves count copies index slot) count = min copies count := by
  obtain ⟨last, ⟨inside, here⟩, only⟩ := division.cuts.existsUnique_between (Nat.mod_lt slot space.length_pos)
  refine count_followers inside (Nat.min_le_right ..) fun index first => ?_
  obtain ⟨r, made, spans⟩ := made index first
  simp only [Serves, made, Except.ok.injEq, exists_eq_left',
    spans.containsSlot_iff division.cuts first (Nat.min_le_right ..)]
  refine exists_congr fun k => and_congr_right fun _ => ⟨fun there => ?_, fun same => same ▸ here⟩
  exact only _ ⟨Nat.mod_lt _ pos, there⟩

end Division

theorem exists_range {start length : Nat} (inside : start < space.length) (short : length ≤ space.length) :
    ∃ r, space.range start length = .ok r ∧ r.space = space ∧ r.start = start ∧ r.length = length :=
  ⟨⟨space, start, length, inside, short⟩, by simp [range, inside, short], rfl, rfl, rfl⟩

section Even

variable (several : 2 ≤ count) (even : count ∣ space.length)
include even

theorem cuts_even : Cuts space.length count (· * (space.length / count)) where
  mono _ _ le := Nat.mul_le_mul_right _ le
  zero := Nat.zero_mul _
  turn index := by rw [Nat.add_mul, Nat.mul_div_cancel' even]

include several

theorem segment_even (first : index < count) (some : 0 < copies) : ∃ r, space.segment index count copies = .ok r ∧
    r.start = index * (space.length / count) ∧ r.length = min copies count * (space.length / count) ∧
      Spans space (· * (space.length / count)) index (min copies count) r := by
  have all : count * (space.length / count) = space.length := Nat.mul_div_cancel' even
  have wide : 0 < space.length / count := Nat.div_pos (Nat.le_of_dvd space.length_pos even) (by omega)
  have inside : index * (space.length / count) < space.length := by
    calc index * (space.length / count)
        < count * (space.length / count) := Nat.mul_lt_mul_of_pos_right first wide
      _ = space.length := all
  have short : min copies count * (space.length / count) ≤ space.length := by
    calc min copies count * (space.length / count)
        ≤ count * (space.length / count) := Nat.mul_le_mul_right _ (Nat.min_le_right ..)
      _ = space.length := all
  have made : space.segment index count copies =
      space.range (index * (space.length / count)) (min copies count * (space.length / count)) := by
    simp only [segment, if_neg (by omega : ¬ count ≤ 1), if_neg (by omega : ¬ count ≤ index),
      if_neg (by omega : ¬ copies = 0), if_pos (Nat.mod_eq_zero_of_dvd even)]
  obtain ⟨r, ranged, own, start, length⟩ := exists_range inside short
  exact ⟨r, made.trans ranged, start, length, own, start.trans (Nat.mod_eq_of_lt inside).symm,
    by rw [length, Nat.add_mul]⟩

theorem division_even : Division space count (· * (space.length / count)) where
  cuts := cuts_even even
  single index first := by
    obtain ⟨r, made, -, -, spans⟩ := segment_even several even first one_pos
    exact ⟨r, made, Nat.min_eq_left (by omega : 1 ≤ count) ▸ spans⟩

end Even

/-- Even segments replicate exactly. Every node gets the range of its segment and the ones that follow it, as many as
there are copies but not more than all; the range starts and ends at multiples of the segment length and contains just
the slots of these segments; and every slot is covered by as many nodes as there are copies. -/
theorem even_segments_replicate (space : KeySpace) (several : 2 ≤ count) (even : count ∣ space.length)
    (some : 0 < copies) :
    (∀ index < count, ∃ r, space.segment index count copies = .ok r ∧ r.space = space ∧
      r.start = index * (space.length / count) ∧ r.length = min copies count * (space.length / count) ∧
      ∀ slot, r.containsSlot slot = true ↔
        ∃ k < min copies count, space.Serves count 1 ((index + k) % count) slot) ∧
    ∀ slot, Nat.count (fun index => space.Serves count copies index slot) count = min copies count := by
  have division := division_even several even
  refine ⟨fun index first => ?_, division.count_serves (by omega) fun index first => ?_⟩
  · obtain ⟨r, made, start, length, spans⟩ := segment_even several even first some
    exact ⟨r, made, spans.own, start, length, fun slot => division.containsSlot_iff spans first (Nat.min_le_right ..)⟩
  · obtain ⟨r, made, -, -, spans⟩ := segment_even several even first some
    exact ⟨r, made, spans⟩

/-- Two copies in four segments: the last node's range goes around, and each slot is covered twice. -/
theorem quarters_replicate :
    2 ≤ 4 ∧ 4 ∣ standard.length ∧ 0 < 2 ∧
      (∃ r, standard.segment 3 4 2 = .ok r ∧ r.start = 270 ∧ r.length = 180 ∧
        ∀ slot, r.containsSlot slot = true ↔ ∃ k < 2, standard.Serves 4 1 ((3 + k) % 4) slot) ∧
      ∀ slot, Nat.count (fun index => standard.Serves 4 2 index slot) 4 = 2 := by
  have even : 4 ∣ standard.length := by decide
  obtain ⟨ranges, counts⟩ := even_segments_replicate standard (by decide : 2 ≤ 4) even two_pos
  obtain ⟨r, made, -, start, length, contains⟩ := ranges 3 (by decide)
  exact ⟨by decide, even, two_pos, ⟨r, made, start, length, contains⟩, counts⟩

section Uneven

def unrolled (space : KeySpace) (count index : Nat) : Nat :=
  space.boundary count (index % count) + space.length * (index / count)

/-- A range of some of the segments that goes around and ends on the slot it starts from. -/
def Collapses (space : KeySpace) (count copies index : Nat) : Prop :=
  copies < count ∧ count ≤ index + copies ∧ space.boundary count ((index + copies) % count) = space.boundary count index

instance : Decidable (space.Collapses count copies index) := inferInstanceAs (Decidable (_ ∧ _ ∧ _))

/-- A range of some of the segments that ends elsewhere than they do, as index and copies come to more than a word. -/
def Strays (space : KeySpace) (count copies index : Nat) : Prop :=
  copies < count ∧
    space.boundary count (segmentAfter count index copies) ≠ space.boundary count ((index + copies) % count)

instance : Decidable (space.Strays count copies index) := inferInstanceAs (Decidable (_ ∧ _))

theorem unrolled_of_lt (space : KeySpace) (first : index < count) :
    space.unrolled count index = space.boundary count index := by
  rw [unrolled, Nat.mod_eq_of_lt first, Nat.div_eq_of_lt first, Nat.mul_zero, Nat.add_zero]

theorem unrolled_add_count (space : KeySpace) (pos : 0 < count) (index : Nat) :
    space.unrolled count (index + count) = space.unrolled count index + space.length := by
  rw [unrolled, Nat.add_mod_right, Nat.add_div_right _ pos, Nat.mul_succ, unrolled, Nat.add_assoc]

theorem unrolled_le_succ (rounded : space.Rounded count) (pos : 0 < count) (index : Nat) :
    space.unrolled count index ≤ space.unrolled count (index + 1) := by
  induction index using Nat.strongRecOn with
  | ind index ih =>
    rcases Nat.lt_or_ge index count with first | later
    · rw [space.unrolled_of_lt first]
      rcases Nat.lt_or_eq_of_le (Nat.succ_le_of_lt first) with next | last
      · rw [space.unrolled_of_lt next]
        exact rounded.mono index (index + 1) (Nat.le_succ _) next
      · have turned := space.unrolled_add_count pos 0
        rw [Nat.zero_add, space.unrolled_of_lt pos, rounded.zero, Nat.zero_add] at turned
        rw [← Nat.succ_eq_add_one, last, turned]
        exact rounded.within index first
    · obtain ⟨index, rfl⟩ := Nat.exists_eq_add_of_le' later
      rw [Nat.add_right_comm, space.unrolled_add_count pos, space.unrolled_add_count pos]
      exact Nat.add_le_add_right (ih index (by omega)) _

theorem cuts_uneven (rounded : space.Rounded count) (pos : 0 < count) :
    Cuts space.length count (space.unrolled count) where
  mono := monotone_nat_of_le_succ (unrolled_le_succ rounded pos)
  zero := by rw [space.unrolled_of_lt pos, rounded.zero]
  turn := space.unrolled_add_count pos

theorem segmentAfter_of_lt (fits : count < UInt32.size → index + copies < UInt32.size) :
    segmentAfter count index copies = (index + copies) % count := by
  simp only [segmentAfter]
  split
  · rename_i word
    rw [Nat.mod_eq_of_lt (fits word)]
  · rfl

/-- A sum that goes around with the words leads to an earlier segment than it should. -/
theorem segmentAfter_le (first : index < count) (part : copies < count) :
    segmentAfter count index copies ≤ (index + copies) % count := by
  by_cases fits : count < UInt32.size → index + copies < UInt32.size
  · exact Nat.le_of_eq (segmentAfter_of_lt fits)
  · obtain ⟨word, long⟩ := Classical.not_imp.mp fits
    simp only [segmentAfter, if_pos word]
    -- one turn of the words, which are no fewer than the segments, and one of the segments
    have rest : index + copies - UInt32.size < count := by omega
    have turned : index + copies - count < count := by omega
    rw [Nat.mod_eq_sub_mod (Nat.le_of_not_lt long), Nat.mod_eq_of_lt (Nat.lt_trans rest word), Nat.mod_eq_of_lt rest,
      Nat.mod_eq_sub_mod (by omega), Nat.mod_eq_of_lt turned]
    omega

theorem not_strays_of_lt (fits : index + copies < UInt32.size) : ¬ space.Strays count copies index :=
  fun ⟨_, apart⟩ => apart (congrArg _ (segmentAfter_of_lt fun _ => fits))

def span (space : KeySpace) (start stop : Nat) : Nat :=
  min (if stop < start then stop + space.length - start else stop - start) space.length

def reach (space : KeySpace) (count copies index : Nat) : Nat :=
  if copies = count then space.length
  else space.span (space.boundary count index) (space.boundary count (segmentAfter count index copies))

theorem span_of_le {start stop : Nat} (le : start ≤ stop) (inside : stop ≤ space.length) :
    space.span start stop = stop - start := by
  rw [span, if_neg (Nat.not_lt.mpr le), Nat.min_eq_left (by omega)]

theorem span_of_lt {start stop : Nat} (less : stop < start) : space.span start stop = stop + space.length - start := by
  rw [span, if_pos less, Nat.min_eq_left (by omega)]

theorem span_self (start : Nat) : space.span start start = 0 := by
  rw [span, if_neg (Nat.lt_irrefl _), Nat.sub_self, Nat.zero_min]

/-- A range that goes around comes as far as it is meant to if it stops there, and not where it starts. -/
theorem span_around {start meant stop : Nat} (early : stop ≤ meant) (back : meant ≤ start)
    (within : start ≤ space.length) :
    start + space.span start stop ≤ meant + space.length ∧
      (start + space.span start stop = meant + space.length ↔ meant ≠ start ∧ stop = meant) := by
  have some := space.length_pos
  rcases Nat.lt_or_eq_of_le (Nat.le_trans early back) with less | rfl
  · rw [span_of_lt less]
    omega
  · rw [span_self]
    omega

/-- Where a range that goes around is meant to stop. -/
theorem unrolled_around (space : KeySpace) (first : index < count) (part : copies < count)
    (around : count ≤ index + copies) : (index + copies) % count < index ∧
      space.unrolled count (index + copies) = space.boundary count ((index + copies) % count) + space.length := by
  obtain ⟨before, meets⟩ := Nat.exists_eq_add_of_le' around
  have turn : (index + copies) % count = before := by rw [meets, Nat.add_mod_right, Nat.mod_eq_of_lt (by omega)]
  rw [turn, meets, space.unrolled_add_count (by omega), space.unrolled_of_lt (by omega)]
  exact ⟨by omega, rfl⟩

/-- A range reaches as far as its segments do along the walk, unless it collapses or strays; then it is shorter. It
should be a whole turn if it collapses, and unless it strays as well it is nothing. -/
theorem reach_cases (rounded : space.Rounded count) (first : index < count) (few : copies ≤ count) :
    space.boundary count index + space.reach count copies index ≤ space.unrolled count (index + copies) ∧
      (space.boundary count index + space.reach count copies index = space.unrolled count (index + copies) ↔
        ¬ space.Collapses count copies index ∧ ¬ space.Strays count copies index) ∧
      (space.Collapses count copies index →
        space.unrolled count (index + copies) = space.boundary count index + space.length ∧
        (¬ space.Strays count copies index → space.reach count copies index = 0)) := by
  rcases Nat.lt_or_eq_of_le few with part | rfl
  · rw [reach, if_neg (Nat.ne_of_lt part)]
    rcases Nat.lt_or_ge (index + copies) count with onward | around
    · -- neither the range nor the words go around
      have turn : (index + copies) % count = index + copies := Nat.mod_eq_of_lt onward
      have ends : segmentAfter count index copies = (index + copies) % count :=
        segmentAfter_of_lt fun word => Nat.lt_trans onward word
      have later := rounded.mono index (index + copies) (Nat.le_add_right ..) onward
      have exact : space.boundary count index + space.span (space.boundary count index)
          (space.boundary count (segmentAfter count index copies)) = space.unrolled count (index + copies) := by
        rw [ends, turn, span_of_le later (rounded.within _ onward), space.unrolled_of_lt onward,
          Nat.add_sub_cancel' later]
      have straight : ¬ space.Strays count copies index := fun ⟨_, apart⟩ => apart (congrArg _ ends)
      have open_ended : ¬ space.Collapses count copies index := fun ⟨_, around, _⟩ =>
        absurd onward (Nat.not_lt.mpr around)
      exact ⟨Nat.le_of_eq exact, iff_of_true exact ⟨open_ended, straight⟩, fun collapses => absurd collapses open_ended⟩
    · obtain ⟨back, meets⟩ := space.unrolled_around first part around
      have sooner := rounded.mono _ _ (segmentAfter_le first part) (Nat.mod_lt _ (by omega))
      have behind := rounded.mono _ _ (Nat.le_of_lt back) first
      obtain ⟨le, exact⟩ := span_around sooner behind (rounded.within index first)
      rw [meets, exact]
      simp only [Collapses, Strays, part, around, true_and, ne_eq, not_not]
      exact ⟨le, fun ends => ⟨by rw [ends], fun stops => by rw [stops, ends, span_self]⟩⟩
  · have turned : space.unrolled copies (index + copies) = space.boundary copies index + space.length := by
      rw [space.unrolled_add_count (Nat.zero_lt_of_lt first), space.unrolled_of_lt first]
    rw [reach, if_pos rfl, turned]
    exact ⟨Nat.le_refl _, iff_of_true rfl ⟨fun collapses => Nat.lt_irrefl _ collapses.1,
      fun strays => Nat.lt_irrefl _ strays.1⟩, fun collapses => absurd collapses.1 (Nat.lt_irrefl _)⟩

theorem not_collapses_one (rounded : space.Rounded count) (several : 2 ≤ count) (first : index < count) :
    ¬ space.Collapses count 1 index := by
  rintro ⟨-, around, ends⟩
  have last := rounded.last
  obtain rfl : index = count - 1 := by omega
  rw [Nat.sub_add_cancel (by omega), Nat.mod_self, rounded.zero] at ends
  omega

/-- The sum of an index and one is a count at most, and so a word where counts are words. -/
theorem not_strays_one (first : index < count) : ¬ space.Strays count 1 index := fun ⟨_, apart⟩ =>
  apart (congrArg _ (segmentAfter_of_lt fun word => Nat.lt_of_le_of_lt first word))

/-- Boundaries are all different where segments are no fewer than slots. -/
theorem not_collapses_of_lt (several : 2 ≤ count) (word : count < 2 ^ 32) (fewer : count < space.length)
    (first : index < count) : ¬ space.Collapses count copies index := by
  rintro ⟨part, around, ends⟩
  obtain ⟨before, around⟩ := Nat.exists_eq_add_of_le' around
  rw [around, Nat.add_mod_right, Nat.mod_eq_of_lt (by omega)] at ends
  have apart := space.boundary_lt several word fewer (by omega : before + 1 < count)
  have later := (space.boundary_rounded several word).mono (before + 1) index (by omega) first
  omega

variable (several : 2 ≤ count) (uneven : ¬ count ∣ space.length)
include several uneven

theorem segment_uneven (first : index < count) (some : 0 < copies) : space.segment index count copies =
    space.range (space.boundary count index % space.length) (space.reach count (min copies count) index) := by
  have rest : ¬ space.length % count = 0 := fun none => uneven (Nat.dvd_of_mod_eq_zero none)
  simp only [segment, if_neg (by omega : ¬ count ≤ 1), if_neg (by omega : ¬ count ≤ index),
    if_neg (by omega : ¬ copies = 0), if_neg rest, reach, span]
  split <;> rfl

/-- A range sets out on the way from cut to cut, and gets to its end unless it collapses or strays. -/
theorem segment_reaches (rounded : space.Rounded count) (first : index < count) (some : 0 < copies) {way : KeyRange}
    (spans : Spans space (space.unrolled count) index (min copies count) way) :
    ∃ r, space.segment index count copies = .ok r ∧ r.space = way.space ∧ r.start = way.start ∧
      r.length = space.reach count (min copies count) index ∧ r.length ≤ way.length ∧
      (r.length = way.length ↔
        ¬ space.Collapses count (min copies count) index ∧ ¬ space.Strays count (min copies count) index) := by
  obtain ⟨within, exact, -⟩ := reach_cases rounded first (Nat.min_le_right copies count)
  obtain ⟨own, start, stop⟩ := spans
  rw [space.unrolled_of_lt first] at start stop
  rw [← stop] at within exact
  have short : space.reach count (min copies count) index ≤ space.length := by
    have turn := way.length_le
    rw [own] at turn
    omega
  obtain ⟨r, made, from_own, from_start, length⟩ := exists_range (Nat.mod_lt _ space.length_pos) short
  refine ⟨r, (segment_uneven several uneven first some).trans made, from_own.trans own.symm,
    from_start.trans start.symm, length, by omega, ?_⟩
  rw [← exact, length]
  omega

theorem division_uneven (rounded : space.Rounded count) : Division space count (space.unrolled count) where
  cuts := cuts_uneven rounded (by omega)
  single index first := by
    have one : min 1 count = 1 := Nat.min_eq_left (by omega)
    obtain ⟨way, spans⟩ := (cuts_uneven rounded (by omega)).exists_spans index (by omega : 1 ≤ count)
    obtain ⟨r, made, own, start, -, -, exact⟩ := segment_reaches several uneven rounded first one_pos (one.symm ▸ spans)
    rw [one] at exact
    have length := exact.mpr ⟨not_collapses_one rounded several first, not_strays_one first⟩
    exact ⟨r, made, own.trans spans.own, start.trans spans.start, length.symm ▸ spans.stop⟩

end Uneven

/-- Segments of an uneven division tile the space, even if there are more of them than slots: every slot lies in one of
them. All this takes of rounding is that boundaries are in order and inside the space, the first at its first slot and
the last behind it, and so they are. -/
theorem uneven_segments_tile (space : KeySpace) (several : 2 ≤ count) (uneven : ¬ count ∣ space.length) :
    (space.Rounded count →
      (∀ index < count, ∃ r, space.segment index count 1 = .ok r) ∧
      ∀ slot, ∃! index, index < count ∧ space.Serves count 1 index slot) ∧
    (count < 2 ^ 32 → space.Rounded count) := by
  refine ⟨fun rounded => ?_, space.boundary_rounded several⟩
  have division := division_uneven several uneven rounded
  refine ⟨fun index first => ?_, division.existsUnique_serves_one⟩
  obtain ⟨r, made, -⟩ := division.single index first
  exact ⟨r, made⟩

/-- Five segments of three slots: two of them are empty. -/
theorem five_segments_tile :
    let three : KeySpace := ⟨3, by decide, by decide⟩
    2 ≤ 5 ∧ ¬ 5 ∣ three.length ∧ three.Rounded 5 ∧ (∀ index < 5, ∃ r, three.segment index 5 1 = .ok r) ∧
      (∀ slot, ∃! index, index < 5 ∧ three.Serves 5 1 index slot) ∧
      (∀ slot < 3, ¬ three.Serves 5 1 1 slot) ∧ ∀ slot < 3, ¬ three.Serves 5 1 3 slot := by
  intro three
  have uneven : ¬ 5 ∣ three.length := by decide
  obtain ⟨tile, rounding⟩ := uneven_segments_tile three (by decide : 2 ≤ 5) uneven
  have rounded : three.Rounded 5 := rounding (by decide)
  obtain ⟨ranges, once⟩ := tile rounded
  exact ⟨by decide, uneven, rounded, ranges, once, by decide +kernel, by decide +kernel⟩

/-- What the ranges of an uneven division contain. A range contains no slot but those of the segments it is made of, and
all of these just if it neither collapses nor strays. If it collapses, the segments are all of the space, and it is
empty unless it strays too. It cannot stray while index and copies come to a word, as they do for half as many
segments as there are words, and can do neither where there are fewer segments than slots. -/
theorem uneven_segments_cover (space : KeySpace) (several : 2 ≤ count) (word : count < 2 ^ 32)
    (uneven : ¬ count ∣ space.length) (first : index < count) (some : 0 < copies) :
    let collapses := space.Collapses count (min copies count) index
    let strays := space.Strays count (min copies count) index
    let owed (slot : Nat) := ∃ k < min copies count, space.Serves count 1 ((index + k) % count) slot
    (∃ r, space.segment index count copies = .ok r ∧
      (∀ slot, r.containsSlot slot = true → owed slot) ∧
      ((∀ slot, r.containsSlot slot = true ↔ owed slot) ↔ ¬ collapses ∧ ¬ strays) ∧
      (collapses → (∀ slot, owed slot) ∧ (¬ strays → r.isEmpty = true))) ∧
    (index + min copies count < 2 ^ 32 → ¬ strays) ∧ (count ≤ 2 ^ 31 → ¬ strays) ∧
    (count < space.length → ¬ collapses ∧ ¬ strays) := by
  intro collapses strays owed
  have few : min copies count ≤ count := Nat.min_le_right ..
  have rounded := space.boundary_rounded several word
  have division := division_uneven several uneven rounded
  have straight : index + min copies count < 2 ^ 32 → ¬ strays := not_strays_of_lt
  refine ⟨?_, straight, fun half => straight (by omega), fun fewer =>
    ⟨not_collapses_of_lt several word fewer first, straight ?_⟩⟩
  · obtain ⟨way, spans⟩ := division.cuts.exists_spans index few
    obtain ⟨-, -, collapsed⟩ := reach_cases rounded first few
    obtain ⟨r, made, own, start, length, le, exact⟩ := segment_reaches several uneven rounded first some spans
    have owed_iff (slot : Nat) : way.containsSlot slot = true ↔ owed slot := division.containsSlot_iff spans first few
    simp only [← owed_iff]
    have within := (KeyRange.contained_iff_length_le own start).mpr le
    refine ⟨r, made, within, ?_, fun collapses => ⟨fun slot => ?_, fun straight => ?_⟩⟩
    · rw [← exact]
      constructor
      · intro alike
        have all := (KeyRange.contained_iff_length_le own.symm start.symm).mp fun slot => (alike slot).mpr
        exact Nat.le_antisymm le all
      · intro same slot
        exact ⟨within slot, (KeyRange.contained_iff_length_le own.symm start.symm).mpr (Nat.le_of_eq same.symm) slot⟩
    · refine KeyRange.containsSlot_of_isFull ?_
      have turn := spans.stop.trans (collapsed collapses).1
      rw [space.unrolled_of_lt first, Nat.add_left_cancel_iff] at turn
      rw [KeyRange.isFull, beq_iff_eq, turn, spans.own]
    · simpa [KeyRange.isEmpty, length] using (collapsed collapses).2 straight
  · have length := space.length_lt
    omega

/-- Four of seven segments around the end of the space; four of five from where two segments begin on one slot; and so
many of so many more that the sum of words goes around, and with it the range ends at 25 and not at 180. -/
theorem wrapped_copies_cover :
    let three : KeySpace := ⟨3, by decide, by decide⟩
    let many := 3000000000
    ¬ 7 ∣ standard.length ∧ ¬ 5 ∣ three.length ∧ ¬ many ∣ standard.length ∧
      (∃ r, standard.segment 5 7 4 = .ok r ∧ ∀ slot, r.containsSlot slot = true ↔
        ∃ k < 4, standard.Serves 7 1 ((5 + k) % 7) slot) ∧
      three.Collapses 5 4 2 ∧ (∃ r, three.segment 2 5 4 = .ok r ∧ r.isEmpty = true ∧
        ∀ slot, ∃ k < 4, three.Serves 5 1 ((2 + k) % 5) slot) ∧
      standard.Strays many 2500000000 2000000000 ∧
      ∃ r, standard.segment 2000000000 many 2500000000 = .ok r ∧ r.text = "[240,+145]" ∧
        ¬ ∀ slot, r.containsSlot slot = true ↔
          ∃ k < 2500000000, standard.Serves many 1 ((2000000000 + k) % many) slot := by
  intro three many
  have uneven : ¬ 7 ∣ standard.length := by decide
  have uneven' : ¬ 5 ∣ three.length := by decide
  have uneven'' : ¬ many ∣ standard.length := by decide
  obtain ⟨⟨r, made, -, contains, -⟩, -, -, apart⟩ := uneven_segments_cover standard (by decide : 2 ≤ 7) (by decide)
    uneven (by decide : 5 < 7) (by decide : 0 < 4)
  obtain ⟨⟨r', made', -, -, nothing⟩, straight, -⟩ := uneven_segments_cover three (by decide : 2 ≤ 5) (by decide)
    uneven' (by decide : 2 < 5) (by decide : 0 < 4)
  obtain ⟨⟨r'', made'', -, contains'', -⟩, -⟩ := uneven_segments_cover standard (by decide : 2 ≤ many) (by decide)
    uneven'' (by decide : 2000000000 < many) (by decide : 0 < 2500000000)
  have collapses : three.Collapses 5 4 2 := by decide +kernel
  have strays : standard.Strays many 2500000000 2000000000 := by decide +kernel
  have ranged : (standard.segment 2000000000 many 2500000000).map KeyRange.text = .ok "[240,+145]" := by decide +kernel
  obtain ⟨all, empty⟩ := nothing collapses
  rw [made''] at ranged
  exact ⟨uneven, uneven', uneven'', ⟨r, made, contains.mpr (apart (by decide))⟩, collapses,
    ⟨r', made', empty (straight (by decide)), all⟩, strays, r'', made'', Except.ok.inj ranged,
    fun exact => (contains''.mp exact).2 strays⟩

/-- The second of three nodes covers nothing of the one slot with two copies, which it covers with one. -/
theorem two_of_three_empty :
    let one : KeySpace := ⟨1, by decide, by decide⟩
    ¬ 3 ∣ one.length ∧ one.segment 1 3 2 = .ok one.emptyRange ∧
      ¬ (one.emptyRange.containsSlot 0 = true ↔ ∃ k < min 2 3, one.Serves 3 1 ((1 + k) % 3) 0) := by
  decide +kernel

end ReplicaRing.KeySpace
