import Mathlib.Data.List.Permutation
import ReplicaRing.Proofs.Routing.Transparency

/-! Which of two nodes is asked first. A disabled node is set back by a turn of the space its own range is of.
In a table whose ranges are all of one space that is behind every enabled node. Where spaces differ a turn of
a short one may be less than the way to an enabled node of a long one, and then the disabled node is asked
first. -/
namespace ReplicaRing.RoutingTable

section Ordering

variable {α : Type} {l : List α} {x y : α}

theorem not_sublist_swap (once : l.Nodup) (before : [x, y].Sublist l) : ¬ [y, x].Sublist l := by
  induction l with
  | nil => cases before
  | cons z l ih =>
    obtain ⟨fresh, rest⟩ := List.nodup_cons.mp once
    intro after
    rcases List.cons_sublist_cons'.mp before with later | ⟨rfl, y_later⟩
    · rcases List.cons_sublist_cons'.mp after with later' | ⟨rfl, -⟩
      · exact ih rest later later'
      · exact fresh (later.subset (by simp))
    · rcases List.cons_sublist_cons'.mp after with later' | ⟨rfl, -⟩
      · exact fresh (later'.subset (by simp))
      · exact fresh (List.singleton_sublist.mp y_later)

theorem sublist_or_swap (x_member : x ∈ l) (y_member : y ∈ l) (apart : x ≠ y) :
    [x, y].Sublist l ∨ [y, x].Sublist l := by
  induction l with
  | nil => cases x_member
  | cons z l ih =>
    simp only [List.cons_sublist_cons', List.singleton_sublist]
    rcases List.mem_cons.mp x_member with rfl | x_later
    · rcases List.mem_cons.mp y_member with rfl | y_later
      · exact absurd rfl apart
      · exact .inl (.inr ⟨rfl, y_later⟩)
    · rcases List.mem_cons.mp y_member with rfl | y_later
      · exact .inr (.inr ⟨rfl, x_later⟩)
      · exact (ih x_later y_later).imp .inl .inl

end Ordering

theorem reported_iff {events : List Event} {s : NodeState} :
    Reported events s ↔ s ∈ events.filterMap Event.state? := by
  rw [List.mem_filterMap, Reported]

variable {hash : KeyHash} {known chosen : List (NodeAddress × ServerNode)} {x y : NodeAddress × ServerNode}

/-- Of two chosen nodes the one of lower rank comes first, and of equal ones the one discovered first. -/
theorem Preference.before_iff (preference : Preference hash known chosen) (once : known.Nodup)
    (x_chosen : x ∈ chosen) (y_chosen : y ∈ chosen) :
    [x, y].Sublist chosen ↔
      x.2.rank hash < y.2.rank hash ∨ x.2.rank hash = y.2.rank hash ∧ [x, y].Sublist known := by
  have ordered : ∀ {x y}, [x, y].Sublist chosen →
      x.2.rank hash < y.2.rank hash ∨ x.2.rank hash = y.2.rank hash ∧ [x, y].Sublist known := by
    intro x y before
    rcases Nat.lt_or_eq_of_le (List.pairwise_iff_forall_sublist.mp preference.nearest before) with nearer | level
    · exact .inl nearer
    · have among := before.filter (·.2.rank hash = y.2.rank hash)
      rw [preference.ties] at among
      simp only [level, decide_true, List.filter_cons_of_pos, List.filter_nil] at among
      exact .inr ⟨level, among.trans List.filter_sublist⟩
  refine ⟨ordered, fun first => ?_⟩
  have apart : x ≠ y := by
    rintro rfl
    rcases first with nearer | ⟨-, twice⟩
    · exact Nat.lt_irrefl _ nearer
    · exact not_sublist_swap once twice twice
  refine (sublist_or_swap x_chosen y_chosen apart).resolve_right fun swapped => ?_
  rcases first with nearer | ⟨level, before⟩ <;> rcases ordered swapped with nearer' | ⟨level', before'⟩
  · omega
  · omega
  · omega
  · exact not_sublist_swap once before before'

/-- A disabled node ranks before an enabled one: the way to the enabled node is longer than the way to the
disabled one and a turn of its space, or as long and the disabled node was discovered first. -/
def Overtakes (hash : KeyHash) (known : List (NodeAddress × ServerNode)) (x y : NodeAddress × ServerNode) : Prop :=
  x.2.disabled = true ∧ y.2.disabled = false ∧
    (x.2.active.distance hash + x.2.active.space.length < y.2.active.distance hash ∨
      x.2.active.distance hash + x.2.active.space.length = y.2.active.distance hash ∧ [x, y].Sublist known)

/-- Ways are shorter than a turn, so only a node of a longer space is overtaken. -/
theorem Overtakes.space_lt (overtakes : Overtakes hash known x y) :
    x.2.active.space.length < y.2.active.space.length := by
  obtain ⟨-, -, further⟩ := overtakes
  have within := y.2.active.distance_lt hash
  omega

/-- Enabled nodes come first just if none is overtaken. -/
theorem Preference.enabled_first_iff_overtakes (preference : Preference hash known chosen) (once : known.Nodup) :
    (chosen.Pairwise fun x y => x.2.disabled = true → y.2.disabled = true) ↔
      ∀ x ∈ chosen, ∀ y ∈ chosen, ¬ Overtakes hash known x y := by
  have overtakes_iff : ∀ x ∈ chosen, ∀ y ∈ chosen, Overtakes hash known x y ↔
      x.2.disabled = true ∧ y.2.disabled = false ∧ [x, y].Sublist chosen := by
    intro x x_chosen y y_chosen
    refine and_congr_right fun x_disabled => and_congr_right fun y_enabled => ?_
    rw [preference.before_iff once x_chosen y_chosen]
    simp only [ServerNode.rank, x_disabled, y_enabled, if_true, Bool.false_eq_true, if_false, Nat.add_zero]
  rw [List.pairwise_iff_forall_sublist]
  constructor
  · intro ordered x x_chosen y y_chosen overtakes
    obtain ⟨x_disabled, y_enabled, before⟩ := (overtakes_iff x x_chosen y y_chosen).mp overtakes
    simp [ordered before x_disabled] at y_enabled
  · intro none x y before x_disabled
    have x_chosen : x ∈ chosen := before.subset (by simp)
    have y_chosen : y ∈ chosen := before.subset (by simp)
    by_contra y_enabled
    exact none x x_chosen y y_chosen ((overtakes_iff x x_chosen y y_chosen).mpr
      ⟨x_disabled, by simpa using y_enabled, before⟩)

/-- Enabled nodes are asked before disabled ones just if no enabled node that covers the hash is overtaken by a
disabled one. That takes an enabled node of a longer space than the disabled one's, so none is where the
spaces that disabled nodes are reported in are as long as those of enabled nodes. The hash is the one that is looked
up, unless one of another space asked for the slot before. -/
theorem enabled_first_iff (space : KeySpace) (events : List Event) (full : UInt64) :
    let t := replay space events
    let hash := servedFor space events (space.hash full)
    ((∀ other, Event.lookup other ∈ events → other.slot < space.length) → hash = space.hash full) ∧
    ∃ chosen, (t.lookup (space.hash full)).1 = ⟨t.version, chosen.map (·.1)⟩ ∧
      Preference hash t.nodes.entries chosen ∧
      ((chosen.Pairwise fun x y => x.2.disabled = true → y.2.disabled = true) ↔
        ∀ x ∈ chosen, ∀ y ∈ chosen, ¬ Overtakes hash t.nodes.entries x y) ∧
      (∀ x y, Overtakes hash t.nodes.entries x y → x.2.active.space.length < y.2.active.space.length) ∧
      ((∀ s, Reported events s → s.disabled = true → ∀ s', Reported events s' → s'.disabled = false →
          s'.active.space.length ≤ s.active.space.length) →
        chosen.Pairwise fun x y => x.2.disabled = true → y.2.disabled = true) := by
  intro t hash
  obtain ⟨chosen, made, preference⟩ := computeRoute_preference hash (replay_listed space events)
  have once : t.nodes.entries.Nodup := .of_map (·.1) t.nodes.distinct
  have exact_condition := preference.enabled_first_iff_overtakes once
  refine ⟨fun own => servedFor_of_own own (hash_inside space full), chosen,
    (lookup_eq space events (space.hash full)).trans made, preference, exact_condition,
    fun x y overtakes => overtakes.space_lt, fun longer => exact_condition.mpr ?_⟩
  have stands : ∀ entry ∈ chosen, ∃ s, Reported events s ∧
      entry.2.active = s.active ∧ entry.2.disabled = s.disabled := by
    intro entry member
    obtain ⟨s, reported, active, -, flag⟩ := replay_stands ((preference.covering entry).mp member).1
    exact ⟨s, reported, active, flag⟩
  intro x x_chosen y y_chosen overtakes
  obtain ⟨s, reported, x_active, x_flag⟩ := stands x x_chosen
  obtain ⟨s', reported', y_active, y_flag⟩ := stands y y_chosen
  have shorter := overtakes.space_lt
  obtain ⟨x_disabled, y_enabled, -⟩ := overtakes
  have le := longer s reported (x_flag ▸ x_disabled) s' reported' (y_flag ▸ y_enabled)
  rw [x_active, y_active] at shorter
  omega

def catchingUp (host : String) (active : KeyRange) (disabled : Bool) : NodeState :=
  ⟨⟨host, 1⟩, none, active, active.space.fullRange, disabled, 1⟩

def longerDisabled : List Event :=
  [.direct ⟨"a", 1⟩ (catchingUp "a" ⟨.standard, 0, 1, by decide, by decide⟩ true) 0 0 0,
    .direct ⟨"b", 1⟩ (catchingUp "b" ⟨quarters, 1, 1, by decide, by decide⟩ false) 0 0 0]

/-- Both are listed for a key, the disabled one last. -/
theorem longer_disabled_last :
    (∀ s, Reported longerDisabled s → s.disabled = true → ∀ s', Reported longerDisabled s' →
      s'.disabled = false → s'.active.space.length ≤ s.active.space.length) ∧
    ∃ chosen : List (NodeAddress × ServerNode),
      ((replay .standard longerDisabled).lookup (KeySpace.standard.hash 0)).1 = ⟨3, chosen.map (·.1)⟩ ∧
      (∀ entry ∈ (replay .standard longerDisabled).nodes.entries, entry ∈ chosen) ∧
      chosen.Pairwise fun x y => x.2.disabled = true → y.2.disabled = true := by
  have longer : ∀ s, Reported longerDisabled s → s.disabled = true → ∀ s', Reported longerDisabled s' →
      s'.disabled = false → s'.active.space.length ≤ s.active.space.length := by
    simp only [reported_iff]
    decide
  obtain ⟨same, chosen, made, preference, _, _, ordered⟩ := enabled_first_iff .standard longerDisabled 0
  rw [same fun other looked => by simp [longerDisabled] at looked] at preference
  have covered : ∀ entry ∈ (replay .standard longerDisabled).nodes.entries,
      entry.2.total.contains (KeySpace.standard.hash 0) = true := by decide
  exact ⟨longer, chosen, made, fun entry member => (preference.covering entry).mpr ⟨member, covered entry member⟩,
    ordered longer⟩

def shorterDisabled : List Event :=
  [.direct ⟨"10.0.0.1", 1⟩ (catchingUp "10.0.0.1" ⟨quarters, 0, 1, by decide, by decide⟩ true) 0 0 0,
    .direct ⟨"10.0.0.2", 1⟩ (catchingUp "10.0.0.2" ⟨.standard, 50, 10, by decide, by decide⟩ false) 0 0 0]

/-- The disabled node is a turn of four slots behind, and the enabled one fifty slots off. -/
theorem shorter_disabled_first :
    (∀ s, Reported shorterDisabled s → s.active.space = s.passive.space) ∧
    let t := replay .standard shorterDisabled
    (t.lookup (KeySpace.standard.hash 0)).1.nodes = [⟨"10.0.0.1", 1⟩, ⟨"10.0.0.2", 1⟩] ∧
      t.isDisabled ⟨"10.0.0.1", 1⟩ = true ∧ t.isDisabled ⟨"10.0.0.2", 1⟩ = false := by
  refine ⟨?_, by cbv, by decide, by decide⟩
  simp only [reported_iff]
  decide

end ReplicaRing.RoutingTable
