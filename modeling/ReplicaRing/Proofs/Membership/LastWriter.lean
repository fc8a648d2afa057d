import ReplicaRing.Proofs.Membership.Fingerprint
import ReplicaRing.Proofs.Membership.Standing

/-! Membership as last writer wins. What a view knows of a node is a function of what it was told: the
earliest of the newest reports, or before any report the placeholder of the first contact. So views that
are told the same agree, whatever the order. -/
namespace ReplicaRing.View

/-- What a view is told of a node: the last of the states it begins with, and every report. -/
def told (others : List NodeState) (events : List Event) (a : NodeAddress) : List NodeState :=
  (reportsOn a others).getLast?.toList ++ reportsOn a (reports events)

section Beginning

variable (space : KeySpace) (own : NodeState) (others : List NodeState) (updated : UInt64) (hasRuntime : Bool)

/-- A view begins with the last state it is given for each other node. -/
theorem make_record? {a : NodeAddress} (apart : a ≠ own.address) :
    (make space own others updated hasRuntime).record? a = standing (reportsOn a others).getLast?.toList none := by
  induction others using List.reverseRecOn with
  | nil => rfl
  | append_singleton others s ih =>
    simp only [make, record?, List.foldl_append, List.foldl_cons, List.foldl_nil] at ih ⊢
    split
    · rename_i ours
      have other : s.address ≠ a := fun here => apart (here.symm.trans ours)
      simpa [reportsOn, other] using ih
    · rw [Registry.get?_insert]
      by_cases here : a = s.address
      · simp [reportsOn, here, standing, NodeState.newest?, Peer.record]
      · simpa [reportsOn, here, Ne.symm here] using ih

theorem make_record?_own : (make space own others updated hasRuntime).record? own.address = none := by
  induction others using List.reverseRecOn with
  | nil => rfl
  | append_singleton others s ih =>
    simp only [make, record?, List.foldl_append, List.foldl_cons, List.foldl_nil] at ih ⊢
    split
    · exact ih
    · rename_i apart
      rwa [Registry.get?_insert, if_neg (Ne.symm apart)]

theorem make_traced {source : NodeState → Prop} (given : ∀ s ∈ others, source s) :
    (make space own others updated hasRuntime).Traced own source := by
  refine ⟨rfl, make_record?_own .., fun a r known => ?_⟩
  have apart : a ≠ own.address := apart_of_record? (make_record?_own ..) known
  rw [make_record? _ _ _ _ _ apart] at known
  rcases mem_of_standing known with member | none
  · obtain ⟨member, here⟩ := List.mem_filter.mp (List.mem_of_getLast? (Option.mem_toList.mp member))
    exact ⟨by simpa using here, given _ member⟩
  · cases none

theorem replay_addressed (events : List Event) :
    ((make space own others updated hasRuntime).replay events).Traced own fun _ => True :=
  List.foldlRecOn (motive := fun v : View => v.Traced own fun _ => True) events _
    (make_traced space own others updated hasRuntime fun _ _ => trivial)
    fun _ traced _ _ => traced.apply (fun _ _ => trivial) fun _ _ _ => trivial

structure Knows (v : View) (own : NodeState) (others : List NodeState) (events : List Event) : Prop where
  others : ∀ a, a ≠ own.address → v.record? a = standing (told others events a) (firstContact? a events)
  ours : v.record? own.address = none

theorem replay_knows (events : List Event) :
    ((make space own others updated hasRuntime).replay events).Knows own others events where
  others a apart := by
    rw [replay_record? _ events (a := a) apart, make_record? _ _ _ _ _ apart, foldl_revise_standing,
      Option.none_or, told]
  ours := (replay_frame _ events).ours.trans (make_record?_own space own others updated hasRuntime)

end Beginning

section Fingerprints

variable {v v' : View}

theorem fingerprint_congr (own : v.own = v'.own) (space : v.space = v'.space)
    (same : ∀ a, v.record? a = v'.record? a) : v.fingerprint = v'.fingerprint :=
  fingerprint_of_states own space fun a => by rw [state?_eq, state?_eq, same]

end Fingerprints

section Agreement

variable {own : NodeState} {others : List NodeState} {events events' : List Event} {v v' : View}

/-- The same reports, no two on one node equally new, lead to the same from the same beginning. -/
theorem newest?_told_congr (same : ∀ s, s ∈ reports events ↔ s ∈ reports events')
    (distinct : ∀ s ∈ reports events, ∀ s' ∈ reports events, s.address = s'.address →
      s.lastUpdated = s'.lastUpdated → s = s') (a : NodeAddress) :
    NodeState.newest? (told others events a) = NodeState.newest? (told others events' a) := by
  have reported : NodeState.newest? (reportsOn a (reports events)) =
      NodeState.newest? (reportsOn a (reports events')) := by
    refine NodeState.newest?_congr (fun s => by simp [reportsOn, same s]) ?_
    intro s member s' member' equallyNew
    simp only [reportsOn, List.mem_filter, decide_eq_true_eq] at member member'
    exact distinct s member.1 s' member'.1 (member.2.trans member'.2.symm) equallyNew
  unfold told
  cases (reportsOn a others).getLast? with
  | none => exact reported
  | some first => simp only [Option.toList_some, List.singleton_append, NodeState.newest?_cons, reported]

/-- Where there are reports, contacts do not matter. -/
theorem record?_eq_of_told (knows : v.Knows own others events) (knows' : v'.Knows own others events')
    (newest : ∀ a, NodeState.newest? (told others events a) = NodeState.newest? (told others events' a))
    {a : NodeAddress} (heard : told others events a ≠ []) : v.record? a = v'.record? a := by
  by_cases apart : a = own.address
  · rw [apart, knows.ours, knows'.ours]
  · obtain ⟨s, found⟩ := Option.ne_none_iff_exists'.mp (mt NodeState.newest?_eq_none.mp heard)
    rw [knows.others a apart, knows'.others a apart, standing, standing, ← newest a, found]

/-- Where there are none, only the first contact does. -/
theorem record?_eq_iff_of_untold (knows : v.Knows own others events) (knows' : v'.Knows own others events')
    (newest : ∀ a, NodeState.newest? (told others events a) = NodeState.newest? (told others events' a))
    {a : NodeAddress} (apart : a ≠ own.address) (untold : told others events a = []) :
    v.record? a = v'.record? a ↔ firstContact? a events = firstContact? a events' := by
  have none := newest a
  rw [untold, NodeState.newest?_nil] at none
  rw [knows.others a apart, knows'.others a apart, standing, standing, ← none, untold, NodeState.newest?_nil]
  exact Option.map_inj_right fun s s' same => congrArg Record.state same

end Agreement

/-- Membership is last writer wins. A view holds the earliest of the newest states that it was told of
another node, or if it was told none, what it made up at the first contact; it has no record on itself and
forgets none. So two views that are told the same, no two reports on one node equally new, agree on every
node they are told of, whatever the order and whatever contacts came between; and they agree on all nodes,
and then in their fingerprints, just if they made up the same for nodes they were told nothing of. -/
theorem replay_last_writer (space : KeySpace) (own : NodeState) (others : List NodeState) (updated : UInt64)
    (hasRuntime : Bool) (events : List Event) :
    let v := (make space own others updated hasRuntime).replay events
    (∀ a, a ≠ own.address →
      (∀ s, NodeState.newest? (told others events a) = some s → v.record? a = some ⟨s, .confirmed⟩) ∧
      (told others events a = [] → v.record? a = (firstContact? a events).map fun s => ⟨s, .provisional⟩)) ∧
    v.record? own.address = none ∧
    (∀ later a, v.record? a ≠ none → (v.replay later).record? a ≠ none) ∧
    ∀ updated' hasRuntime' events', (∀ s, s ∈ reports events ↔ s ∈ reports events') →
      (∀ s ∈ reports events, ∀ s' ∈ reports events, s.address = s'.address →
        s.lastUpdated = s'.lastUpdated → s = s') →
      let v' := (make space own others updated' hasRuntime').replay events'
      let agree := ∀ a, a ≠ own.address → told others events a = [] →
        firstContact? a events = firstContact? a events'
      (∀ a, told others events a ≠ [] → v.record? a = v'.record? a) ∧
      (agree ↔ ∀ a, v.record? a = v'.record? a) ∧ (agree → v.fingerprint = v'.fingerprint) := by
  intro v
  have knows : v.Knows own others events := replay_knows space own others updated hasRuntime events
  have frame := (make space own others updated hasRuntime).replay_frame events
  refine ⟨fun a apart => ⟨fun s newest => ?_, fun untold => ?_⟩, knows.ours, fun later a => replay_remembers later, ?_⟩
  · rw [knows.others a apart, standing, newest]
  · rw [knows.others a apart, standing, untold, NodeState.newest?_nil]
  intro updated' hasRuntime' events' same distinct v' agree
  have knows' : v'.Knows own others events' := replay_knows space own others updated' hasRuntime' events'
  have frame' := (make space own others updated' hasRuntime').replay_frame events'
  have newest : ∀ a, NodeState.newest? (told others events a) = NodeState.newest? (told others events' a) :=
    newest?_told_congr same distinct
  have whole : agree ↔ ∀ a, v.record? a = v'.record? a := by
    constructor
    · intro agreed a
      by_cases untold : told others events a = []
      · by_cases apart : a = own.address
        · rw [apart, knows.ours, knows'.ours]
        · exact (record?_eq_iff_of_untold knows knows' newest apart untold).mpr (agreed a apart untold)
      · exact record?_eq_of_told knows knows' newest untold
    · intro agreed a apart untold
      exact (record?_eq_iff_of_untold knows knows' newest apart untold).mp (agreed a)
  refine ⟨fun a => record?_eq_of_told knows knows' newest, whole, fun agreed => ?_⟩
  exact fingerprint_congr (frame.own.trans frame'.own.symm) (frame.space.trans frame'.space.symm) (whole.mp agreed)

/-- Two reports on a node, the newer one first, after a contact with it. -/
def newerFirst : List Event :=
  [.contact 9 ⟨"b", 1⟩ KeySpace.circle.emptyRange, .merge 10 ⟨10, 10, .serving "b" 3, [.serving "c" 5]⟩,
    .merge 11 ⟨11, 11, .serving "b" 2, []⟩]

/-- The same reports, the older one first, between starts of workers. -/
def olderFirst : List Event :=
  [.start, .merge 12 ⟨12, 12, .serving "b" 2, []⟩, .start, .merge 13 ⟨13, 13, .serving "b" 3, [.serving "c" 5]⟩]

/-- Both orders end with the newer report, and alike. -/
theorem orders_agree :
    let v := (make .circle (.serving "a" 1) [] 0 true).replay newerFirst
    let v' := (make .circle (.serving "a" 1) [] 0 true).replay olderFirst
    v.record? ⟨"b", 1⟩ = some ⟨.serving "b" 3, .confirmed⟩ ∧ (∀ a, v.record? a = v'.record? a) ∧
      v.fingerprint = v'.fingerprint := by
  intro v v'
  obtain ⟨known, _, _, agreement⟩ := replay_last_writer .circle (.serving "a" 1) [] 0 true newerFirst
  have perm : (reports newerFirst).Perm (reports olderFirst) := by decide
  have same : ∀ s, s ∈ reports newerFirst ↔ s ∈ reports olderFirst := fun _ => perm.mem_iff
  have distinct : ∀ s ∈ reports newerFirst, ∀ s' ∈ reports newerFirst, s.address = s'.address →
      s.lastUpdated = s'.lastUpdated → s = s' := by decide
  obtain ⟨_, whole, fingerprints⟩ := agreement 0 true olderFirst same distinct
  have agree : ∀ a, a ≠ (NodeState.serving "a" 1).address → told [] newerFirst a = [] →
      firstContact? a newerFirst = firstContact? a olderFirst := by
    intro a _ untold
    have other : (⟨"b", 1⟩ : NodeAddress) ≠ a := by
      rintro rfl
      exact absurd untold (by decide)
    simp [firstContact?, newerFirst, olderFirst, List.findSome?, Event.placeholder?, other]
  exact ⟨(known ⟨"b", 1⟩ (by decide)).1 _ (by decide), whole.mp agree, fingerprints agree⟩

end ReplicaRing.View
