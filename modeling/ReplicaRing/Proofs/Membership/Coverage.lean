import ReplicaRing.Proofs.KeySpace.Coverage
import ReplicaRing.Proofs.KeySpace.Union
import ReplicaRing.Proofs.Membership.Changes
import ReplicaRing.Proofs.Membership.LastWriter

/-! How much of the space a view covers. A union reaches over its parts, so what nodes serve at all is no less than
what they serve actively; and a peer that is added only adds a range. Percentages follow, as rounding down keeps the
order and the whole space alone is a hundred percent. -/
namespace ReplicaRing

namespace KeySpace

variable {space : KeySpace} {ranges ranges' : List KeyRange}

theorem coverage_le_length (space : KeySpace) (ranges : List KeyRange) : space.coverage ranges ≤ space.length := by
  rw [coverage_eq_count]
  exact Nat.count_le _

theorem coverage_mono (wider : ∀ r ∈ ranges, ∃ r' ∈ ranges', ∀ slot, r.covers slot = true → r'.covers slot = true) :
    space.coverage ranges ≤ space.coverage ranges' := by
  rw [coverage_eq_count, coverage_eq_count]
  refine Nat.count_mono_left fun slot _ ⟨r, member, there⟩ => ?_
  obtain ⟨r', member', wider⟩ := wider r member
  exact ⟨r', member', by simpa [KeyRange.covers] using wider slot (by simpa [KeyRange.covers] using there)⟩

end KeySpace

/-- Both ranges of a node are of one space, so they can be united. -/
def NodeState.Uniform (s : NodeState) : Prop := s.active.space = s.passive.space

instance (s : NodeState) : Decidable s.Uniform := inferInstanceAs (Decidable (_ = _))

theorem NodeState.placeholder_uniform (a : NodeAddress) (range : KeyRange) (now : UInt64) :
    (placeholder a range now).Uniform := rfl

theorem NodeState.Uniform.covers_total {s : NodeState} {slot : Nat} (uniform : s.Uniform)
    (active : s.active.covers slot = true) : s.total.covers slot = true := by
  simp only [KeyRange.covers, Bool.and_eq_true, decide_eq_true_eq] at active ⊢
  rw [NodeState.total, KeyRange.space_union uniform]
  exact ⟨active.1, KeyRange.containsSlot_union uniform (.inl active.2)⟩

namespace View

variable {v v' : View} {covered covered' : Nat}

theorem activeCoverage_le_length (v : View) : v.activeCoverage ≤ v.space.length := KeySpace.coverage_le_length ..

theorem totalCoverage_le_length (v : View) : v.totalCoverage ≤ v.space.length := KeySpace.coverage_le_length ..

theorem activeCoverage_le_totalCoverage (uniform : ∀ s ∈ v.states, s.Uniform) :
    v.activeCoverage ≤ v.totalCoverage := by
  refine KeySpace.coverage_mono fun r member => ?_
  obtain ⟨s, known, rfl⟩ := List.mem_map.mp member
  exact ⟨s.total, List.mem_map_of_mem known, fun _ => (uniform s known).covers_total⟩

/-! ## Percentages -/

/-- Short of the whole space, rounding down stays below a hundred. -/
theorem percentage_eq_hundred_iff (within : covered ≤ v.space.length) :
    v.percentage covered = 100 ↔ covered = v.space.length := by
  refine ⟨fun all => ?_, fun whole => if_pos whole⟩
  by_contra short
  have below : 100 * covered / v.space.length < 100 := by
    rw [Nat.div_lt_iff_lt_mul v.space.length_pos]
    omega
  rw [percentage, if_neg short] at all
  omega

theorem percentage_le (within : covered ≤ v.space.length) : v.percentage covered ≤ 100 := by
  unfold percentage
  split
  · exact Nat.le_refl _
  · exact Nat.div_le_of_le_mul (by rw [Nat.mul_comm]; exact Nat.mul_le_mul_right 100 within)

theorem percentage_mono (more : covered ≤ covered') (within : covered' ≤ v.space.length) :
    v.percentage covered ≤ v.percentage covered' := by
  by_cases whole : covered' = v.space.length
  · rw [(percentage_eq_hundred_iff within).mpr whole]
    exact percentage_le (Nat.le_trans more within)
  · have short : covered ≠ v.space.length := by omega
    rw [percentage, percentage, if_neg whole, if_neg short]
    exact Nat.div_le_div_right (Nat.mul_le_mul_left 100 more)

/-! ## Consistency -/

structure Bounded (v : View) : Prop where
  active_le : v.activeCoverage ≤ v.space.length
  total_le : v.totalCoverage ≤ v.space.length
  active_hundred : v.percentage v.activeCoverage = 100 ↔ v.activeCoverage = v.space.length
  total_hundred : v.percentage v.totalCoverage = 100 ↔ v.totalCoverage = v.space.length
  percentage_active_le : v.percentage v.activeCoverage ≤ 100
  percentage_total_le : v.percentage v.totalCoverage ≤ 100

theorem bounded (v : View) : v.Bounded where
  active_le := v.activeCoverage_le_length
  total_le := v.totalCoverage_le_length
  active_hundred := percentage_eq_hundred_iff v.activeCoverage_le_length
  total_hundred := percentage_eq_hundred_iff v.totalCoverage_le_length
  percentage_active_le := percentage_le v.activeCoverage_le_length
  percentage_total_le := percentage_le v.totalCoverage_le_length

/-- All that a view holds is of one space each, if all that it was given and told is. -/
theorem replay_uniform {own : NodeState} {others : List NodeState} {events : List Event}
    (uniform : ∀ s ∈ own :: others ++ reports events, s.Uniform) (space : KeySpace) (updated : UInt64)
    (hasRuntime : Bool) :
    ∀ s ∈ ((make space own others updated hasRuntime).replay events).states, s.Uniform := by
  have given : ∀ s ∈ others, s.Uniform := fun s member => uniform s (by simp [member])
  have traced : ((make space own others updated hasRuntime).replay events).Traced own NodeState.Uniform := by
    refine List.foldlRecOn (motive := fun v : View => v.Traced own NodeState.Uniform) events _
      (make_traced space own others updated hasRuntime given) fun v traced event member => ?_
    refine traced.apply (fun s told => uniform s ?_) fun a s made => ?_
    · have reported : s ∈ reports events := List.mem_flatMap.mpr ⟨event, member, told⟩
      simp [reported]
    · obtain ⟨now, range, -, rfl⟩ := Event.of_placeholder? made
      exact NodeState.placeholder_uniform a range now
  exact (traced.message (uniform own (by simp)) 0).2

/-! ## Growth -/

structure CoversNoLess (v v' : View) : Prop where
  active : v.activeCoverage ≤ v'.activeCoverage
  total : v.totalCoverage ≤ v'.totalCoverage
  percentage_active : v.percentage v.activeCoverage ≤ v'.percentage v'.activeCoverage
  percentage_total : v.percentage v.totalCoverage ≤ v'.percentage v'.totalCoverage

structure Extends (v v' : View) : Prop where
  space : v'.space = v.space
  states : v.states ⊆ v'.states

theorem Extends.coversNoLess (grows : v.Extends v') : v.CoversNoLess v' := by
  have active : v.activeCoverage ≤ v'.activeCoverage := by
    rw [activeCoverage, activeCoverage, grows.space]
    exact KeySpace.coverage_le_of_subset (List.map_subset _ grows.states)
  have total : v.totalCoverage ≤ v'.totalCoverage := by
    rw [totalCoverage, totalCoverage, grows.space]
    exact KeySpace.coverage_le_of_subset (List.map_subset _ grows.states)
  have percentages (covered : Nat) : v.percentage covered = v'.percentage covered := by
    rw [percentage, percentage, grows.space]
  refine ⟨active, total, ?_, ?_⟩
  · rw [percentages]
    exact percentage_mono active v'.activeCoverage_le_length
  · rw [percentages]
    exact percentage_mono total v'.totalCoverage_le_length

theorem Frame.extends (frame : v.Frame v') (kept : ∀ a r, v.record? a = some r → v'.record? a = some r) :
    v.Extends v' := by
  refine ⟨frame.space, fun s member => ?_⟩
  rcases List.mem_cons.mp member with rfl | peer
  · rw [states, frame.own]
    exact List.mem_cons_self
  · obtain ⟨a, status, known⟩ := mem_peerStates.mp peer
    exact List.mem_cons_of_mem _ (mem_peerStates.mpr ⟨a, status, kept a _ known⟩)

theorem contact_extends (v : View) (now : UInt64) (a : NodeAddress) (range : KeyRange) :
    v.Extends (v.contact now a range).2 := by
  refine (v.contact_frame now a range).extends fun b r known => ?_
  by_cases ours : a = v.own.address
  · rwa [contact, if_pos ours]
  · rw [(v.contact_revises now range ours).record?]
    split
    · rename_i here
      rw [← here, known, Option.some_or]
    · exact known

/-- Reports on nodes that are unknown leave the known ones as they are. -/
theorem mergeStates_extends {states : List NodeState} (unknown : ∀ s ∈ states, v.state? s.address = none) :
    v.Extends (v.mergeStates states) := by
  have frame : v.Frame (v.mergeStates states) := foldl_keeps Frame.refl Frame.trans mergeState_frame v states
  refine frame.extends fun a r known => ?_
  rw [v.mergeStates_untold fun s member here => ?_, known]
  have none_known := unknown s member
  rw [here, state?_eq, known] at none_known
  cases none_known

/-- Coverage is consistent in every view that comes about, with placeholders among its peers. None of the figures is
out of bounds, and a percentage is a hundred for the whole space alone. What is covered actively is no more than what is
covered at all, in percent too, as long as ranges are united as they have to be, each state that the view is given or
told having both of its own in one space. From any such view, neither a contact nor a message on unknown nodes lowers
any of the figures; nor does, within any other message, a state that adds a peer. -/
theorem replay_coverage_consistent (space : KeySpace) (own : NodeState) (others : List NodeState) (updated : UInt64)
    (hasRuntime : Bool) (events : List Event) :
    let v := (make space own others updated hasRuntime).replay events
    v.Bounded ∧
    ((∀ s ∈ own :: others ++ reports events, s.Uniform) →
      v.activeCoverage ≤ v.totalCoverage ∧ v.percentage v.activeCoverage ≤ v.percentage v.totalCoverage) ∧
    (∀ now a range, v.CoversNoLess (v.contact now a range).2) ∧
    (∀ now m, (∀ s ∈ m.states, v.state? s.address = none) → v.CoversNoLess (v.merge now m).2) ∧
    ∀ earlier s, (v.mergeStates earlier).state? s.address = none →
      (v.mergeStates earlier).CoversNoLess ((v.mergeStates earlier).mergeState s).2 := by
  intro v
  refine ⟨v.bounded, fun uniform => ?_, fun now a range => (v.contact_extends now a range).coversNoLess,
    fun now m unknown => ?_, fun earlier s unknown => ?_⟩
  · have within : v.activeCoverage ≤ v.totalCoverage :=
      activeCoverage_le_totalCoverage (replay_uniform uniform space updated hasRuntime)
    exact ⟨within, percentage_mono within v.totalCoverage_le_length⟩
  · have merged := mergeStates_extends unknown
    have keeps := v.merge_keeps now m
    refine Extends.coversNoLess ⟨keeps.space.trans merged.space, fun s member => ?_⟩
    exact (keeps.frame.extends fun a r known => (keeps.record? a).trans known).states (merged.states member)
  · have merged : (v.mergeStates earlier).Extends ((v.mergeStates earlier).mergeStates [s]) :=
      mergeStates_extends (by simpa using unknown)
    exact merged.coversNoLess

/-- A node whose two ranges wrap around with gaps between them, a contact that wraps around, and a report on a node
that was unknown. -/
theorem gaps_covered :
    let wrapped : KeyRange := ⟨.circle, 7, 2, by decide, by decide⟩
    let far : KeyRange := ⟨.circle, 3, 1, by decide, by decide⟩
    let own : NodeState := ⟨⟨"a", 1⟩, none, far, far, false, 1⟩
    let peer : NodeState := ⟨⟨"b", 1⟩, none, wrapped, far, false, 1⟩
    let v := (make .circle own [] 0 true).replay [.contact 5 ⟨"c", 1⟩ wrapped]
    (v.activeCoverage = 3 ∧ v.percentage v.activeCoverage = 37 ∧ v.percentage v.totalCoverage = 37 ∧
      v.activeCoverage ≤ v.totalCoverage) ∧
    (v.mergeState peer).2.totalCoverage = 8 ∧ (v.mergeState peer).2.activeCoverage = 3 ∧
    v.CoversNoLess (v.mergeState peer).2 := by
  intro wrapped far own peer v
  obtain ⟨-, within, -, -, adds⟩ := replay_coverage_consistent .circle own [] 0 true [.contact 5 ⟨"c", 1⟩ wrapped]
  obtain ⟨active_le_total, -⟩ := within (by decide)
  exact ⟨⟨by decide, by decide, by decide, active_le_total⟩, by decide, by decide, adds [] peer (by decide)⟩

end View
end ReplicaRing
