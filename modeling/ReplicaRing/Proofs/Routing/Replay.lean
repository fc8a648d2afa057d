import ReplicaRing.Proofs.Node.Registry
import ReplicaRing.Routing.Table

/-! Routing tables as what happens to them. What one event does to routing is said once, in `Changes`: the
placements of the known nodes stay and so does the version, or they do not and the version rises by one. -/
namespace ReplicaRing.RoutingTable

/-- What happens to a table. Hashes of any space may be looked up, not only of its own. -/
inductive Event where
  | direct (address : NodeAddress) (state : NodeState) (request response cluster : UInt64)
  | indirect (reporter : NodeAddress) (state : NodeState)
  | hint (address : NodeAddress) (request response available : UInt64)
  | remove (address : NodeAddress)
  | lookup (hash : KeyHash)

def Event.state? : Event → Option NodeState
  | .direct _ state _ _ _ => some state
  | .indirect _ state => some state
  | _ => none

def Event.hash? : Event → Option KeyHash
  | .lookup hash => some hash
  | _ => none

def apply (t : RoutingTable) : Event → RoutingTable
  | .direct a s request response cluster => (t.updateDirect a s request response cluster).2
  | .indirect reporter s => (t.updateIndirect reporter s).2
  | .hint a request response available => (t.hint a request response available).2
  | .remove a => (t.remove a).2
  | .lookup hash => (t.lookup hash).2

def replay (space : KeySpace) (events : List Event) : RoutingTable := events.foldl apply (.empty space)

theorem replay_append (space : KeySpace) (before after : List Event) :
    replay space (before ++ after) = after.foldl apply (replay space before) := by
  rw [replay, List.foldl_append, replay]

theorem replay_keeps {space : KeySpace} {events : List Event} (holds : RoutingTable → Prop)
    (starts : holds (.empty space)) (keeps : ∀ t, holds t → ∀ event ∈ events, holds (t.apply event)) : holds (replay space events) :=
  List.foldlRecOn (motive := holds) events apply starts keeps

def placed (t : RoutingTable) : List (NodeAddress × KeyRange × KeyRange × Bool) :=
  t.nodes.entries.map fun entry => (entry.1, entry.2.placement)

/-- An update that says whether routing changed, and is right. Kept routes are not touched. -/
structure Changes (t : RoutingTable) (update : Bool × RoutingTable) : Prop where
  space : update.2.space = t.space
  routes : update.2.routes = t.routes
  listed : t.listed = t.nodes.addresses → update.2.listed = update.2.nodes.addresses
  version : update.2.version = if update.1 then t.version + 1 else t.version
  placed : update.1 = true ↔ update.2.placed ≠ t.placed

variable (t : RoutingTable) {a : NodeAddress} {n n' : ServerNode}

theorem Changes.none : t.Changes (false, t) := ⟨rfl, rfl, id, rfl, by simp⟩

theorem mem_placed {p : KeyRange × KeyRange × Bool} :
    (a, p) ∈ t.placed ↔ ∃ n, t.nodes.get? a = some n ∧ n.placement = p := by
  simp [placed, Registry.get?_eq_some_iff]

/-- Replacing the value of a known node changes the placements just if it changes its own. -/
theorem placed_modify (n' : ServerNode) (known : t.nodes.get? a = some n) :
    n.placement ≠ n'.placement ↔
      ({ t with nodes := t.nodes.modify a fun _ => n' } : RoutingTable).placed ≠ t.placed := by
  refine not_congr ⟨fun same => ?_, fun same => ?_⟩
  · simp only [placed, Registry.modify, List.map_map]
    refine List.map_congr_left fun entry member => ?_
    by_cases here : entry.1 = a
    · have value : t.nodes.get? entry.1 = some entry.2 := t.nodes.get?_eq_some_iff.mpr member
      rw [here, known, Option.some.injEq] at value
      simp [here, ← same, value]
    · simp [here]
  · have member : (a, n'.placement) ∈ t.placed := by
      rw [← same, mem_placed]
      exact ⟨n', by simp [Registry.get?_modify, known], rfl⟩
    obtain ⟨m, found, at_m⟩ := t.mem_placed.mp member
    rw [known, Option.some.injEq] at found
    exact found ▸ at_m

theorem changeNode_changes (known : t.nodes.get? a = some n) : t.Changes (t.changeNode a n n') := by
  have moved := t.placed_modify n' known
  have order := Registry.addresses_modify t.nodes a fun _ => n'
  unfold changeNode
  split
  · rename_i same
    exact ⟨rfl, rfl, fun current => current.trans order.symm, rfl, by simpa [same] using moved⟩
  · rename_i differs
    exact ⟨rfl, rfl, fun current => current.trans order.symm, rfl,
      iff_of_true rfl (moved.mp differs)⟩

theorem addNode_changes (unknown : t.nodes.get? a = none) :
    t.Changes (true, (t.addNode a n).raise) := by
  refine ⟨rfl, rfl, fun _ => rfl, rfl, iff_of_true rfl fun same => ?_⟩
  have added : (a, n.placement) ∈ (t.addNode a n).raise.placed :=
    (mem_placed _).mpr ⟨n, by simp [addNode, raise, Registry.get?_insert], rfl⟩
  rw [same, mem_placed, unknown] at added
  simp at added

theorem updateDirect_changes (a : NodeAddress) (s : NodeState) (request response cluster : UInt64) :
    t.Changes (t.updateDirect a s request response cluster) := by
  simp only [updateDirect]
  split
  · rename_i n known
    exact t.changeNode_changes known
  · rename_i unknown
    exact t.addNode_changes unknown

theorem updateIndirect_changes (reporter : NodeAddress) (s : NodeState) :
    t.Changes (t.updateIndirect reporter s) := by
  simp only [updateIndirect]
  split
  · rename_i n known
    split
    · exact .none t
    · exact t.changeNode_changes known
  · rename_i unknown
    exact t.addNode_changes unknown

theorem remove_changes (a : NodeAddress) : t.Changes (t.remove a) := by
  unfold remove
  split
  · exact .none t
  · rename_i n known
    refine ⟨rfl, rfl, fun _ => rfl, rfl, iff_of_true rfl fun same => ?_⟩
    have was : (a, n.placement) ∈ t.placed := t.mem_placed.mpr ⟨n, known, rfl⟩
    rw [← same, mem_placed] at was
    simp [raise, Registry.get?_erase] at was

@[simp] theorem hint_placement (request response available : UInt64) :
    (n.hint request response available).placement = n.placement := by
  unfold ServerNode.hint
  split <;> rfl

theorem hint_changes (a : NodeAddress) (request response available : UInt64) :
    t.Changes (false, (t.hint a request response available).2) := by
  unfold hint
  split
  · exact .none t
  · rename_i n known
    have kept := t.placed_modify (n.hint request response available) known
    have order := Registry.addresses_modify t.nodes a fun _ => n.hint request response available
    exact ⟨rfl, rfl, fun current => current.trans order.symm, rfl, by simpa using kept⟩

theorem lookup_frame (hash : KeyHash) : ∃ routes, (t.lookup hash).2 = { t with routes := routes } := by
  simp only [lookup]
  split
  · exact ⟨t.routes, rfl⟩
  · exact ⟨_, rfl⟩

/-- An event but a lookup is an update that is right about routing. -/
theorem apply_cases (event : Event) :
    (event.hash? = none ∧ ∃ changed, t.Changes (changed, t.apply event)) ∨ ∃ hash, event = .lookup hash := by
  cases event with
  | direct a s request response cluster => exact .inl ⟨rfl, _, t.updateDirect_changes a s request response cluster⟩
  | indirect reporter s => exact .inl ⟨rfl, _, t.updateIndirect_changes reporter s⟩
  | hint a request response available => exact .inl ⟨rfl, _, t.hint_changes a request response available⟩
  | remove a => exact .inl ⟨rfl, _, t.remove_changes a⟩
  | lookup hash => exact .inr ⟨hash, rfl⟩

def Event.about? : Event → Option NodeAddress
  | .direct a _ _ _ _ => some a
  | .indirect reporter s => some (resolve reporter s)
  | .hint a _ _ _ => some a
  | .remove a => some a
  | .lookup _ => none

def Event.revise : Event → Option ServerNode → Option ServerNode
  | .direct _ s request response cluster, known =>
    some { (known.getD (.make s.active s.passive)).place s with
      requestSent := request, responseReceived := response, nodeFetched := s.lastUpdated
      clusterFetched := cluster }
  | .indirect _ s, some n =>
    if s.lastUpdated ≤ n.nodeFetched then some n
    else some { n.place s with nodeFetched := s.lastUpdated }
  | .indirect _ s, none => some { (ServerNode.make s.active s.passive).place s with nodeFetched := s.lastUpdated }
  | .hint _ request response available, known => known.map (·.hint request response available)
  | .remove _, _ => none
  | .lookup _, known => known

@[simp] theorem nodes_changeNode : (t.changeNode a n n').2.nodes = t.nodes.modify a fun _ => n' := by
  unfold changeNode
  split <;> rfl

theorem nodes_apply (event : Event) : (t.apply event).nodes =
    match event.about? with
    | some a => t.nodes.settle a (event.revise (t.nodes.get? a))
    | none => t.nodes := by
  cases event with
  | direct a s request response cluster =>
    simp only [apply, updateDirect, Event.about?, Event.revise, Registry.settle]
    cases known : t.nodes.get? a with
    | none => rfl
    | some n => exact nodes_changeNode t
  | indirect reporter s =>
    simp only [apply, updateIndirect, Event.about?]
    cases known : t.nodes.get? (resolve reporter s) with
    | none =>
      simp only [Event.revise, Registry.settle, known]
      rfl
    | some n =>
      simp only [Event.revise]
      split
      · simp only [Registry.settle, known, Option.isSome_some, if_true, Registry.modify_same known]
      · simp only [Registry.settle, known, Option.isSome_some, if_true, nodes_changeNode]
  | hint a request response available =>
    simp only [apply, hint, Event.about?, Event.revise]
    cases known : t.nodes.get? a with
    | none => exact (Registry.erase_unknown _ known).symm
    | some n => simp only [Option.map_some, Registry.settle, known, Option.isSome_some, if_true]
  | remove a =>
    simp only [apply, remove, Event.about?, Event.revise, Registry.settle]
    cases known : t.nodes.get? a with
    | none => exact (Registry.erase_unknown _ known).symm
    | some n => rfl
  | lookup hash =>
    obtain ⟨routes, frame⟩ := t.lookup_frame hash
    rw [apply, frame]
    rfl

/-- An event revises the node it is about and leaves the others as they are. -/
theorem get?_apply (event : Event) (b : NodeAddress) : (t.apply event).nodes.get? b =
    if event.about? = some b then event.revise (t.nodes.get? b) else t.nodes.get? b := by
  rw [nodes_apply]
  cases about : event.about? with
  | none => simp
  | some a =>
    simp only [Registry.get?_settle, Option.some.injEq, eq_comm]
    split
    · rename_i here
      rw [here]
    · rfl

/-- Where a node stands after it is revised is what the event reports, or where it stood. -/
theorem revise_placement {event : Event} {known : Option ServerNode} (revised : event.revise known = some n) :
    (∃ s, event.state? = some s ∧ n.placement = (s.active, s.passive, s.disabled)) ∨
    ∃ m, known = some m ∧ n.placement = m.placement := by
  cases event with
  | direct a s request response cluster =>
    cases revised
    exact .inl ⟨s, rfl, rfl⟩
  | indirect reporter s =>
    cases known with
    | none =>
      cases revised
      exact .inl ⟨s, rfl, rfl⟩
    | some m =>
      simp only [Event.revise] at revised
      split at revised
      · cases revised
        exact .inr ⟨_, rfl, rfl⟩
      · cases revised
        exact .inl ⟨s, rfl, rfl⟩
  | hint a request response available =>
    obtain ⟨m, rfl, rfl⟩ := Option.map_eq_some_iff.mp revised
    exact .inr ⟨m, rfl, hint_placement ..⟩
  | remove a => cases revised
  | lookup hash => exact .inr ⟨n, revised, rfl⟩

def Reported (events : List Event) (s : NodeState) : Prop := ∃ event ∈ events, event.state? = some s

/-- Known nodes stand where some event reported them. -/
theorem replay_reported {space : KeySpace} {events : List Event}
    (known : (replay space events).nodes.get? a = some n) :
    ∃ s, Reported events s ∧ n.placement = (s.active, s.passive, s.disabled) := by
  let stand (t : RoutingTable) : Prop := ∀ a n, t.nodes.get? a = some n →
    ∃ s, Reported events s ∧ n.placement = (s.active, s.passive, s.disabled)
  have starts : stand (.empty space) := fun _ _ found => nomatch found
  have keeps : ∀ t, stand t → ∀ event ∈ events, stand (t.apply event) := by
    intro t before event member b m found
    rw [get?_apply] at found
    split at found
    · rcases revise_placement found with ⟨s, of_event, stands⟩ | ⟨m', was, stands⟩
      · exact ⟨s, ⟨event, member, of_event⟩, stands⟩
      · obtain ⟨s, of_event, stood⟩ := before b m' was
        exact ⟨s, of_event, stands.trans stood⟩
    · exact before b m found
  exact replay_keeps stand starts keeps a n known

end ReplicaRing.RoutingTable
