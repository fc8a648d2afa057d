import ReplicaRing.KeySpace.Words
import ReplicaRing.Proofs.KeySpace.Walk

/-! Slot arithmetic fits words. The lengths of two spaces together are a word, and nothing that is formed on the way
is more than that; so in words the operations on ranges come to what they are in numbers, whatever the arithmetic does
where a result does not fit. -/
namespace ReplicaRing

/-- What lengths are bounded for. -/
theorem KeySpace.two_lengths_lt (space space' : KeySpace) : space.length + space'.length < UInt32.size := by
  have le := space.length_le
  have le' := space'.length_le
  simp only [maxKeySpaceLength] at le le'
  rw [UInt32.size]
  omega

/-- The slot of a hash is a word, in whichever space. -/
theorem KeySpace.exists_hash_eq (space : KeySpace) (full : UInt64) :
    ∃ slot : UInt32, space.hash full = ⟨full, slot.toNat⟩ := by
  have two := space.two_lengths_lt space
  have inside : full.toNat % space.length < space.length := Nat.mod_lt _ space.length_pos
  refine ⟨.ofNat (full.toNat % space.length), ?_⟩
  rw [hash, UInt32.toNat_ofNat_of_lt' (by omega)]

/-- Steps of a fold that all succeed make a fold. -/
theorem foldlM_eq_some {α β : Type} {step : β → α → Option β} {step' : β → α → β} {xs : List α}
    (each : ∀ b, ∀ x ∈ xs, step b x = some (step' b x)) (b : β) : xs.foldlM step b = some (xs.foldl step' b) := by
  induction xs generalizing b with
  | nil => rfl
  | cons x xs ih =>
    rw [List.foldlM_cons, each b x (List.mem_cons_self ..), List.foldl_cons]
    exact ih (fun b y later => each b y (List.mem_cons_of_mem _ later)) (step' b x)

namespace WordArithmetic

variable (arith : WordArithmetic) {n m : Nat}

theorem add_ofNat (word : n + m < UInt32.size) : arith.add (.ofNat n) (.ofNat m) = some (.ofNat (n + m)) := by
  rw [arith.add_of_lt, UInt32.ofNat_add]
  rwa [UInt32.toNat_ofNat_of_lt' (by omega), UInt32.toNat_ofNat_of_lt' (by omega)]

theorem sub_ofNat (word : n < UInt32.size) (le : m ≤ n) : arith.sub (.ofNat n) (.ofNat m) = some (.ofNat (n - m)) := by
  rw [arith.sub_of_le, UInt32.ofNat_sub le]
  exact (UInt32.ofNat_le_iff_le (Nat.lt_of_le_of_lt le word) word).mpr le

theorem rem_ofNat (word : n < UInt32.size) (word' : m < UInt32.size) (pos : 0 < m) :
    arith.rem (.ofNat n) (.ofNat m) = some (.ofNat (n % m)) := by
  rw [arith.rem_of_pos, UInt32.ofNat_mod word word']
  exact (UInt32.ofNat_lt_iff_lt (by decide) word').mpr pos

end WordArithmetic

namespace KeyRange

variable (r : KeyRange)

theorem bounds : 0 < r.space.length ∧ r.start < r.space.length ∧ r.length ≤ r.space.length ∧
    r.space.length + r.space.length < UInt32.size :=
  ⟨r.space.length_pos, r.start_lt, r.length_le, r.space.two_lengths_lt r.space⟩

theorem toNat_words : r.words.space.toNat = r.space.length ∧ r.words.start.toNat = r.start ∧
    r.words.length.toNat = r.length := by
  have bounds := r.bounds
  refine ⟨UInt32.toNat_ofNat_of_lt' ?_, UInt32.toNat_ofNat_of_lt' ?_, UInt32.toNat_ofNat_of_lt' ?_⟩ <;> omega

@[simp] theorem isEmpty_words : r.words.isEmpty = r.isEmpty := by
  obtain ⟨-, -, length⟩ := r.toNat_words
  rw [WordRange.isEmpty, Bool.eq_iff_iff, beq_iff_eq, ← UInt32.toNat_inj, length, UInt32.toNat_zero, isEmpty,
    beq_iff_eq]

@[simp] theorem isFull_words : r.words.isFull = r.isFull := by
  obtain ⟨space, -, length⟩ := r.toNat_words
  rw [WordRange.isFull, Bool.eq_iff_iff, beq_iff_eq, ← UInt32.toNat_inj, length, space, isFull, beq_iff_eq]

theorem length_words_lt_iff {a b : KeyRange} : a.words.length < b.words.length ↔ a.length < b.length := by
  rw [UInt32.lt_iff_toNat_lt, a.toNat_words.2.2, b.toNat_words.2.2]

end KeyRange

theorem WordRange.valid_iff {w : WordRange} : w.Valid ↔ ∃ r : KeyRange, r.words = w := by
  constructor
  · rintro ⟨pos, le, start, length⟩
    let space : KeySpace := ⟨w.space.toNat, UInt32.lt_iff_toNat_lt.mp pos, le⟩
    refine ⟨⟨space, w.start.toNat, w.length.toNat, UInt32.lt_iff_toNat_lt.mp start,
      UInt32.le_iff_toNat_le.mp length⟩, ?_⟩
    simp only [KeyRange.words, space, UInt32.ofNat_toNat]
  · rintro ⟨r, rfl⟩
    obtain ⟨space, start, length⟩ := r.toNat_words
    refine ⟨UInt32.lt_iff_toNat_lt.mpr (space ▸ r.space.length_pos), space ▸ r.space.length_le, ?_, ?_⟩
    · rw [UInt32.lt_iff_toNat_lt, start, space]
      exact r.start_lt
    · rw [UInt32.le_iff_toNat_le, length, space]
      exact r.length_le

namespace WordArithmetic

variable (arith : WordArithmetic) (r a b : KeyRange) {slot : Nat}

theorem stop_words : arith.stop r.words = some (.ofNat r.stop) := by
  have bounds := r.bounds
  exact arith.add_ofNat (by omega)

/-- A turn is added before the start is taken away, so the way never starts below zero. -/
theorem offset_words (word : slot < UInt32.size) :
    arith.offset r.words (.ofNat slot) = some (.ofNat (r.offset slot)) := by
  have bounds := r.bounds
  have inside : slot % r.space.length < r.space.length := Nat.mod_lt _ r.space.length_pos
  simp (disch := omega) only [offset, KeyRange.words, rem_ofNat, add_ofNat, sub_ofNat, Option.bind_eq_bind,
    Option.bind_some, KeyRange.offset]

theorem containsSlot_words (word : slot < UInt32.size) :
    arith.containsSlot r.words (.ofNat slot) = some (r.containsSlot slot) := by
  have bounds := r.bounds
  have away := r.offset_lt slot
  cases empty : r.isEmpty with
  | true => simp [containsSlot, empty, KeyRange.containsSlot_of_isEmpty empty]
  | false =>
    cases full : r.isFull with
    | true => simp [containsSlot, empty, full, KeyRange.containsSlot_of_isFull full]
    | false =>
      have within : UInt32.ofNat (r.offset slot) < r.words.length ↔ r.offset slot < r.length := by
        rw [UInt32.lt_iff_toNat_lt, UInt32.toNat_ofNat_of_lt' (by omega), r.toNat_words.2.2]
      simp [containsSlot, empty, full, arith.offset_words r word, within, KeyRange.containsSlot]

theorem distance_words (full : UInt64) (word : slot < UInt32.size) :
    arith.distance r.words (.ofNat slot) = some (.ofNat (r.distance ⟨full, slot⟩)) := by
  have bounds := r.bounds
  have inside : slot % r.space.length < r.space.length := Nat.mod_lt _ r.space.length_pos
  have reduced : arith.rem (.ofNat slot) r.words.space = some (.ofNat (slot % r.space.length)) :=
    arith.rem_ofNat word (by omega) r.space.length_pos
  have small : slot % r.space.length < UInt32.size := by omega
  have contained := arith.containsSlot_words r small
  simp only [distance, reduced, contained, Option.bind_eq_bind, Option.bind_some, KeyRange.distance]
  cases r.containsSlot (slot % r.space.length) with
  | true => rfl
  | false =>
    simp (disch := omega) only [KeyRange.words, rem_ofNat, add_ofNat, sub_ofNat, Option.bind_some, Bool.false_eq_true,
      if_false]

/-- The gap is less than the one space and the other arc no longer than its own, so the reach is a word for ranges of
two spaces as well. -/
theorem extendOver_words : arith.extendOver a.words b.words = some ((a.extendOver b).map KeyRange.words) := by
  have bounds := a.bounds
  have bounds' := b.bounds
  have two := a.space.two_lengths_lt b.space
  have away := a.offset_lt b.start
  obtain ⟨space, -, length⟩ := a.toNat_words
  have gap : arith.offset a.words b.words.start = some (.ofNat (a.offset b.start)) := arith.offset_words a (by omega)
  have apart : a.words.length < UInt32.ofNat (a.offset b.start) ↔ a.length < a.offset b.start := by
    rw [UInt32.lt_iff_toNat_lt, length, UInt32.toNat_ofNat_of_lt' (by omega)]
  have reach : arith.add (.ofNat (a.offset b.start)) b.words.length = some (.ofNat (a.offset b.start + b.length)) :=
    arith.add_ofNat (by omega)
  have grown : min (max a.words.length (.ofNat (a.offset b.start + b.length))) a.words.space =
      .ofNat (min (max a.length (a.offset b.start + b.length)) a.space.length) := by
    rw [← UInt32.toNat_inj, UInt32.toNat_min, UInt32.toNat_max, length, space, UInt32.toNat_ofNat_of_lt' (by omega),
      UInt32.toNat_ofNat_of_lt' (by omega)]
  simp only [extendOver, gap, apart, reach, grown, Option.bind_eq_bind, Option.bind_some, KeyRange.extendOver]
  split <;> rfl

theorem union_words : arith.union a.words b.words = some (a.union b).words := by
  unfold union KeyRange.union
  simp only [KeyRange.isEmpty_words, KeyRange.isFull_words, arith.extendOver_words, Option.bind_eq_bind,
    Option.bind_some]
  split
  · rfl
  split
  · rfl
  split
  · rfl
  cases a.extendOver b with
  | none => cases b.extendOver a <;> rfl
  | some x =>
    cases b.extendOver a with
    | none => rfl
    | some y =>
      simp only [Option.map_some, KeyRange.length_words_lt_iff]
      split <;> rfl

theorem fill_words (buffer : Array Bool) : arith.fill r.words buffer = some (r.fill buffer) := by
  have bounds := r.bounds
  rw [fill, r.toNat_words.2.2, KeyRange.fill]
  -- The count stays below the length, so no place is two lengths off.
  refine foldlM_eq_some (fun buffer i counted => ?_) buffer
  have counted := List.mem_range.mp counted
  have inside : (r.start + i) % r.space.length < r.space.length := Nat.mod_lt _ r.space.length_pos
  simp (disch := omega) only [KeyRange.words, add_ofNat, rem_ofNat, UInt32.toNat_ofNat_of_lt', Option.bind_eq_bind,
    Option.bind_some, Option.pure_def]

end WordArithmetic

/-- Slot arithmetic fits words. The words that pass the checks are those of the ranges there are, number by number, and
every hash has a word for its slot. On these each operation succeeds and comes to what it is in numbers, for every
slot, every hash and every buffer, by any arithmetic that is exact where a result fits: also by the one that fails on
every other result (`checked`) and by the one that goes on with a reduced word (`wrapping`). So nothing that is formed
on the way is more than a word or less than zero, and no remainder is by zero. -/
theorem slot_arithmetic_fits :
    (∀ w : WordRange, w.Valid ↔ ∃ r : KeyRange, r.words = w) ∧
    (∀ r : KeyRange, r.words.space.toNat = r.space.length ∧ r.words.start.toNat = r.start ∧
      r.words.length.toNat = r.length) ∧
    (∀ (space : KeySpace) (full : UInt64), ∃ slot : UInt32, space.hash full = ⟨full, slot.toNat⟩) ∧
    ∀ (arith : WordArithmetic) (a b : KeyRange) (slot : UInt32) (full : UInt64) (buffer : Array Bool),
      (arith.stop a.words).map UInt32.toNat = some a.stop ∧
      (arith.offset a.words slot).map UInt32.toNat = some (a.offset slot.toNat) ∧
      arith.containsSlot a.words slot = some (a.containsSlot slot.toNat) ∧
      (arith.distance a.words slot).map UInt32.toNat = some (a.distance ⟨full, slot.toNat⟩) ∧
      arith.extendOver a.words b.words = some ((a.extendOver b).map KeyRange.words) ∧
      arith.union a.words b.words = some (a.union b).words ∧
      arith.fill a.words buffer = some (a.fill buffer) := by
  refine ⟨fun w => WordRange.valid_iff, KeyRange.toNat_words, KeySpace.exists_hash_eq,
    fun arith a b slot full buffer => ?_⟩
  have bounds := a.bounds
  have stop_lt : a.stop < UInt32.size := by
    rw [KeyRange.stop]
    omega
  have offset_lt := a.offset_lt slot.toNat
  have distance_lt := a.distance_lt ⟨full, slot.toNat⟩
  have offset := arith.offset_words a slot.toNat_lt_size
  have contains := arith.containsSlot_words a slot.toNat_lt_size
  have distance := arith.distance_words a full slot.toNat_lt_size
  rw [UInt32.ofNat_toNat] at offset contains distance
  refine ⟨?_, ?_, contains, ?_, arith.extendOver_words a b, arith.union_words a b, arith.fill_words a buffer⟩
  · rw [arith.stop_words, Option.map_some, UInt32.toNat_ofNat_of_lt' stop_lt]
  · rw [offset, Option.map_some, UInt32.toNat_ofNat_of_lt' (by omega)]
  · rw [distance, Option.map_some, UInt32.toNat_ofNat_of_lt' (by omega)]

/-- The bound on lengths is all but needed: the longest arc of the largest space stops within a word, that of a space
two slots longer would not. -/
example : WordArithmetic.checked.stop ⟨2147483647, 2147483646, 2147483647⟩ = some 4294967293 ∧
    WordArithmetic.checked.stop ⟨2147483649, 2147483648, 2147483649⟩ = none := by decide

/-- Where a start is not in its space, the way from it cannot be measured. -/
example : WordArithmetic.checked.offset ⟨4, 9, 1⟩ 0 = none := by decide

end ReplicaRing
