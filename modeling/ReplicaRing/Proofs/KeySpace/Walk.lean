import Mathlib.Order.Bounds.Basic
import ReplicaRing.KeySpace.Cover

/-! Walks around a space. Each step takes a slot one farther from where an arc starts, until a turn is full. So an
arc is what the first steps from its start lead to, and its distance from a slot is the shortest walk that ends in
it. -/
namespace ReplicaRing.KeyRange

variable {r : KeyRange} {slot steps : Nat} {hash : KeyHash}

theorem offset_cases (r : KeyRange) (slot : Nat) :
    r.start ≤ slot % r.space.length ∧ r.offset slot = slot % r.space.length - r.start ∨
    slot % r.space.length < r.start ∧
      r.offset slot = slot % r.space.length + r.space.length - r.start := by
  have inside : slot % r.space.length < r.space.length := Nat.mod_lt _ r.space.length_pos
  have start := r.start_lt
  unfold offset
  rcases Nat.lt_or_ge (slot % r.space.length) r.start with before | after
  · exact .inr ⟨before, Nat.mod_eq_of_lt (by omega)⟩
  · refine .inl ⟨after, ?_⟩
    rw [show slot % r.space.length + r.space.length - r.start =
      slot % r.space.length - r.start + r.space.length by omega, Nat.add_mod_right]
    exact Nat.mod_eq_of_lt (by omega)

theorem containsSlot_iff : r.containsSlot slot = true ↔ r.offset slot < r.length := by
  simp [containsSlot]

theorem containsSlot_of_isEmpty (empty : r.isEmpty = true) : r.containsSlot slot = false := by
  simp only [isEmpty, beq_iff_eq] at empty
  simp [containsSlot, empty]

theorem containsSlot_of_isFull (full : r.isFull = true) : r.containsSlot slot = true := by
  simp only [isFull, beq_iff_eq] at full
  rw [containsSlot_iff, full]
  exact r.offset_lt slot

theorem distance_lt (r : KeyRange) (hash : KeyHash) : r.distance hash < r.space.length := by
  simp only [distance]
  split
  · exact r.space.length_pos
  · exact Nat.mod_lt _ r.space.length_pos

variable (r)

/-- Of a slot number only its place in the space matters. -/
@[simp] theorem offset_mod (slot : Nat) : r.offset (slot % r.space.length) = r.offset slot := by
  rw [offset, Nat.mod_mod, offset]

@[simp] theorem containsSlot_mod (slot : Nat) : r.containsSlot (slot % r.space.length) = r.containsSlot slot := by
  rw [containsSlot, offset_mod, containsSlot]

theorem offset_add (slot steps : Nat) : r.offset (slot + steps) = (r.offset slot + steps) % r.space.length := by
  have start := r.start_lt
  have turned (slot : Nat) : r.offset slot = (slot + (r.space.length - r.start)) % r.space.length := by
    rw [offset, Nat.add_sub_assoc (Nat.le_of_lt start), Nat.mod_add_mod]
  rw [turned, turned, Nat.mod_add_mod, Nat.add_right_comm]

@[simp] theorem offset_start : r.offset r.start = 0 := by
  have start := r.start_lt
  rcases r.offset_cases r.start with ⟨-, away⟩ | ⟨before, -⟩
  · rw [away, Nat.mod_eq_of_lt start, Nat.sub_self]
  · rw [Nat.mod_eq_of_lt start] at before
    omega

theorem containsSlot_start (nonempty : r.isEmpty = false) : r.containsSlot r.start = true := by
  rw [containsSlot_iff, offset_start]
  simpa [isEmpty, Nat.pos_iff_ne_zero] using nonempty

theorem offset_start_add (within : steps < r.space.length) : r.offset (r.start + steps) = steps := by
  rw [offset_add, offset_start, Nat.zero_add, Nat.mod_eq_of_lt within]

theorem start_add_offset (slot : Nat) : (r.start + r.offset slot) % r.space.length = slot % r.space.length := by
  rcases r.offset_cases slot with ⟨after, away⟩ | ⟨before, away⟩
  · rw [away, Nat.add_sub_cancel' after, Nat.mod_mod]
  · have start := r.start_lt
    rw [away, show r.start + (slot % r.space.length + r.space.length - r.start) =
      slot % r.space.length + r.space.length by omega, Nat.add_mod_right, Nat.mod_mod]

/-- An arc is what fewer steps from its start lead to than it is long. -/
theorem containsSlot_iff_walk : r.containsSlot slot = true ↔
    ∃ steps < r.length, (r.start + steps) % r.space.length = slot % r.space.length := by
  rw [containsSlot_iff]
  constructor
  · intro contained
    exact ⟨r.offset slot, contained, r.start_add_offset slot⟩
  · rintro ⟨steps, within, there⟩
    have away : r.offset slot = steps := by
      rw [← r.offset_mod slot, ← there, offset_mod, offset_start_add _ (Nat.lt_of_lt_of_le within r.length_le)]
    omega

/-- Of two arcs with one start the longer one contains the other. -/
theorem contained_iff_length_le {a b : KeyRange} (same : a.space = b.space) (start : a.start = b.start) :
    (∀ slot, a.containsSlot slot = true → b.containsSlot slot = true) ↔ a.length ≤ b.length := by
  have measured (slot : Nat) : a.offset slot = b.offset slot := by rw [offset, offset, same, start]
  constructor
  · intro contained
    refine Nat.le_of_not_lt fun longer => ?_
    have inside : b.length < b.space.length := Nat.lt_of_lt_of_le longer (same ▸ a.length_le)
    have ends : b.offset (b.start + b.length) = b.length := b.offset_start_add inside
    have there := contained (b.start + b.length) (by rwa [containsSlot_iff, measured, ends])
    rw [containsSlot_iff, ends] at there
    exact Nat.lt_irrefl _ there
  · intro le slot
    rw [containsSlot_iff, containsSlot_iff, measured]
    exact fun near => Nat.lt_of_lt_of_le near le

/-- From outside an arc the way to its start completes a turn. -/
theorem offset_add_distance (nonempty : r.isEmpty = false) (outside : r.containsSlot hash.slot = false) :
    r.offset hash.slot + r.distance hash = r.space.length := by
  have away : r.length ≤ r.offset hash.slot := by simpa [containsSlot] using outside
  have longer : r.length ≠ 0 := by simpa [isEmpty] using nonempty
  have start := r.start_lt
  have inside : hash.slot % r.space.length < r.space.length := Nat.mod_lt _ r.space.length_pos
  simp only [distance, containsSlot_mod, outside, Bool.false_eq_true, if_false]
  rcases r.offset_cases hash.slot with ⟨after, far⟩ | ⟨before, far⟩
  · rw [Nat.mod_eq_of_lt (by omega)]
    omega
  · rw [show r.start + r.space.length - hash.slot % r.space.length =
      r.start - hash.slot % r.space.length + r.space.length by omega, Nat.add_mod_right, Nat.mod_eq_of_lt (by omega)]
    omega

theorem distance_eq_zero_iff (nonempty : r.isEmpty = false) : r.distance hash = 0 ↔ r.contains hash = true := by
  cases within : r.containsSlot hash.slot with
  | true => simp [distance, contains, within]
  | false =>
    have turn := r.offset_add_distance nonempty within
    have far := r.offset_lt hash.slot
    simp only [contains, within, Bool.false_eq_true, iff_false]
    omega

/-- Distance is the shortest walk. From any slot it is the least number of steps that end in an arc which is not
empty; it is none just from within, and less than a turn. -/
theorem distance_isLeast (hash : KeyHash) (nonempty : r.isEmpty = false) :
    IsLeast {steps | r.containsSlot ((hash.slot + steps) % r.space.length) = true} (r.distance hash) ∧
      (r.distance hash = 0 ↔ r.contains hash = true) ∧ r.distance hash < r.space.length := by
  have longer : 0 < r.length := by simpa [isEmpty, Nat.pos_iff_ne_zero] using nonempty
  refine ⟨?_, r.distance_eq_zero_iff nonempty, r.distance_lt hash⟩
  simp only [containsSlot_mod]
  cases within : r.containsSlot hash.slot with
  | true =>
    rw [(r.distance_eq_zero_iff nonempty).mpr within]
    exact ⟨within, fun steps _ => Nat.zero_le steps⟩
  | false =>
    have turn := r.offset_add_distance nonempty within
    refine ⟨?_, fun steps arrived => ?_⟩
    · rw [Set.mem_ofPred_eq, containsSlot_iff, offset_add, turn, Nat.mod_self]
      exact longer
    · -- Fewer steps only lead farther from the start, which is too far already.
      refine Nat.le_of_not_lt fun fewer => ?_
      rw [Set.mem_ofPred_eq, containsSlot_iff, offset_add, Nat.mod_eq_of_lt (by omega)] at arrived
      have away : r.length ≤ r.offset hash.slot := by simpa [containsSlot] using within
      omega

/-- From just behind an arc that wraps around, the walk is a turn less the length of the arc. -/
theorem distance_behind_wrapped :
    let r : KeyRange := ⟨.standard, 350, 20, by decide, by decide⟩
    r.isEmpty = false ∧ r.distance (KeySpace.standard.hash 370) = 340 ∧
      r.containsSlot ((10 + 340) % 360) = true ∧ ∀ steps, r.containsSlot ((10 + steps) % 360) = true → 340 ≤ steps := by
  intro r
  have slot : (KeySpace.standard.hash 370).slot = 10 := by decide
  have distance : r.distance (KeySpace.standard.hash 370) = 340 := by decide
  obtain ⟨⟨arrives, least⟩, -, -⟩ := distance_isLeast r (KeySpace.standard.hash 370) (by decide)
  rw [slot, distance] at arrives least
  exact ⟨by decide, distance, arrives, fun steps arrived => least arrived⟩

end ReplicaRing.KeyRange
