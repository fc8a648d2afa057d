import ReplicaRing.Proofs.Membership.LastWriter
import ReplicaRing.Proofs.Routing.Message

/-! A client that listens to a server. What the server records of a node only moves on, from a placeholder
to a report and from there to newer ones, and the client takes the newest state that it hears. So the client
agrees with the server but for one thing: to the server any report is better than a placeholder, while the
client cannot tell a placeholder from a report, and holds on to one that is as new. -/
namespace ReplicaRing

section Leading

variable {past : List Record} {r : Record} {s : NodeState}

/-- The newest state of a record that moved on is its last one, or a placeholder that is as new. -/
theorem newest?_of_leads (moved : (past ++ [r]).Pairwise Record.Leads)
    (newest : NodeState.newest? ((past ++ [r]).map Record.state) = some s) :
    s = r.state ∨ ⟨s, .provisional⟩ ∈ past ∧ r.state.lastUpdated ≤ s.lastUpdated := by
  have late : r.state.lastUpdated ≤ s.lastUpdated := NodeState.le_of_newest? newest (by simp)
  obtain ⟨⟨state, status⟩, member, rfl⟩ := List.mem_map.mp (NodeState.mem_of_newest? newest)
  rcases List.mem_append.mp member with earlier | last
  · rcases (List.pairwise_append.mp moved).2.2 _ earlier r (by simp) with rfl | ⟨_, provisional | older⟩
    · exact .inl rfl
    · obtain rfl : status = .provisional := provisional
      exact .inr ⟨earlier, late⟩
    · exact absurd older (UInt64.not_lt.mpr late)
  · exact .inl (congrArg Record.state (List.mem_singleton.mp last))

theorem newest?_of_placeholder (moved : (past ++ [r]).Pairwise Record.Leads)
    (member : ⟨s, .provisional⟩ ∈ past) (late : r.state.lastUpdated ≤ s.lastUpdated) :
    NodeState.newest? ((past ++ [r]).map Record.state) = some s := by
  obtain ⟨chain, _, toLast⟩ := List.pairwise_append.mp moved
  obtain ⟨first, rest, rfl⟩ := List.exists_cons_of_ne_nil (List.ne_nil_of_mem member)
  obtain ⟨fromFirst, _⟩ := List.pairwise_cons.mp chain
  -- Nothing leads to a placeholder, so the first record is the placeholder, and all later ones are reports.
  obtain rfl : first = ⟨s, .provisional⟩ := by
    rcases List.mem_cons.mp member with same | later
    · exact same.symm
    · exact (fromFirst _ later).eq_of_provisional
  rw [List.cons_append, List.map_cons]
  refine NodeState.newest?_cons_of_le fun s' among => ?_
  obtain ⟨r', within, rfl⟩ := List.mem_map.mp among
  rcases List.mem_append.mp within with later | last
  · rcases toLast r' (.tail _ later) r (by simp) with rfl | ⟨_, provisional | older⟩
    · exact late
    · obtain ⟨state, status⟩ := r'
      obtain rfl : status = .provisional := provisional
      cases (fromFirst _ later).eq_of_provisional
      exact UInt64.le_refl _
    · exact UInt64.le_of_lt (UInt64.lt_of_lt_of_le older late)
  · exact List.mem_singleton.mp last ▸ late

end Leading

/-- Where no address is a local reference, a state is about the node that it names. -/
theorem RoutingTable.peersOn_eq_reportsOn {sender a : NodeAddress} {peers : List NodeState}
    (plain : ∀ s ∈ peers, s.address.isLocalReference = false) : peersOn sender a peers = View.reportsOn a peers :=
  List.filter_congr fun s member => by simp [resolve, plain s member]

/-- A server's view and a client that listens to it. Each time it does, the view is kept in `heard`. -/
structure Session where
  view : View
  table : RoutingTable
  heard : List View

namespace Session

inductive Step where
  | server (event : View.Event)
  | listen (now request response : UInt64)

/-- To listen is to take the view's message of the moment, from the view's own address. -/
def apply (s : Session) : Step → Session
  | .server event => { s with view := s.view.apply event }
  | .listen now request response =>
    { s with
      table := (s.table.ingest s.view.own.address (s.view.message now) request response).2
      heard := s.heard ++ [s.view] }

def replay (s : Session) (steps : List Step) : Session := steps.foldl apply s

def start (space : KeySpace) (own : NodeState) (others : List NodeState) (updated : UInt64) (hasRuntime : Bool)
    (routing : KeySpace) : Session :=
  ⟨.make space own others updated hasRuntime, .empty routing, []⟩

def Step.names : Step → List NodeAddress
  | .server (.contact _ a _) => [a]
  | .server (.merge _ m) => m.states.map (·.address)
  | _ => []

def told (s : Session) (a : NodeAddress) : List Record := s.heard.filterMap (·.record? a)

/-- The client was told a placeholder that is at least as new as what is said of the node now. -/
def Misled (s : Session) (p h : NodeState) : Prop :=
  ∃ v ∈ s.heard, v.record? p.address = some ⟨h, .provisional⟩ ∧ p.lastUpdated ≤ h.lastUpdated

section Running

variable {s : Session} {own : NodeState} {routing : KeySpace}

/-- The client heard how the records moved on, and what its table was told is what it heard. -/
structure Followed (s : Session) (own : NodeState) (routing : KeySpace) : Prop where
  traced : s.view.Traced own fun s => s.address.isLocalReference = false
  moved : ∀ a, a ≠ own.address → (s.told a).Pairwise Record.Leads
  leads : ∀ a, a ≠ own.address → ∀ r ∈ s.told a, ∃ r', s.view.record? a = some r' ∧ r.Leads r'
  table : ∃ events, s.table = .replay routing events ∧
    ∀ a, a ≠ own.address → RoutingTable.standing a events = (s.told a).map Record.state

theorem Followed.plain (followed : s.Followed own routing) :
    ∀ p ∈ s.view.peerStates, p.address.isLocalReference = false := by
  intro p member
  obtain ⟨a, status, known⟩ := View.mem_peerStates.mp member
  exact (followed.traced.known a _ known).2

/-- A view's message says one thing of a peer, what the view knows of it. -/
theorem Followed.peersOn (followed : s.Followed own routing) (now : UInt64) (sender a : NodeAddress) :
    RoutingTable.peersOn sender a (s.view.message now).peers = (s.view.record? a).toList.map Record.state :=
  (RoutingTable.peersOn_eq_reportsOn followed.plain).trans (followed.traced.reportsOn_peerStates a)

theorem told_listen (now request response : UInt64) (a : NodeAddress) :
    (s.apply (.listen now request response)).told a = s.told a ++ (s.view.record? a).toList := by
  cases known : s.view.record? a <;> simp [apply, told, known]

theorem Followed.server (followed : s.Followed own routing) {event : View.Event}
    (plain : ∀ a ∈ (Step.server event).names, a.isLocalReference = false) :
    (s.apply (.server event)).Followed own routing := by
  refine ⟨followed.traced.apply (fun s member => ?_) fun a s made => ?_, followed.moved,
    fun a apart r member => ?_, followed.table⟩
  · cases event with
    | merge now m => exact plain _ (List.mem_map_of_mem member)
    | contact | start | stop | finish => cases member
  · obtain ⟨_, range, rfl, rfl⟩ := View.Event.of_placeholder? made
    exact plain a (.head _)
  · obtain ⟨r', known, leads⟩ := followed.leads a apart r member
    obtain ⟨r'', revised, further⟩ := View.revise_leads (a := a) event r'
    refine ⟨r'', ?_, leads.trans further⟩
    rw [← revised, ← known]
    exact s.view.apply_record? event (followed.traced.owner ▸ apart)

theorem listen_table {events : List RoutingTable.Event} (table : s.table = .replay routing events)
    (now request response : UInt64) : (s.apply (.listen now request response)).table = .replay routing
      (events ++ RoutingTable.taking s.view.own.address (s.view.message now) request response) := by
  rw [← RoutingTable.ingest_replay, ← table]
  rfl

theorem Followed.listen (followed : s.Followed own routing) (now request response : UInt64) :
    (s.apply (.listen now request response)).Followed own routing := by
  refine ⟨followed.traced, fun a apart => ?_, fun a apart r member => ?_, ?_⟩
  · rw [told_listen, List.pairwise_append]
    refine ⟨followed.moved a apart, Option.pairwise_toList .., fun r member r' now => ?_⟩
    obtain ⟨_, known, leads⟩ := followed.leads a apart r member
    cases known.symm.trans (Option.mem_toList.mp now)
    exact leads
  · rw [told_listen] at member
    rcases List.mem_append.mp member with before | now
    · exact followed.leads a apart r before
    · exact ⟨r, Option.mem_toList.mp now, .inl rfl⟩
  · obtain ⟨events, table, heard⟩ := followed.table
    refine ⟨_, listen_table table now request response, fun a apart => ?_⟩
    have other : s.view.own.address ≠ a := followed.traced.owner ▸ apart.symm
    rw [told_listen, List.map_append, ← heard a apart, RoutingTable.standing_taking, if_neg other, followed.peersOn]

theorem Followed.replay {steps : List Step} (followed : s.Followed own routing)
    (plain : ∀ a ∈ steps.flatMap Step.names, a.isLocalReference = false) :
    (s.replay steps).Followed own routing := by
  refine List.foldlRecOn (motive := fun s : Session => s.Followed own routing) steps _ followed
    fun s followed step member => ?_
  cases step with
  | server event => exact followed.server fun a named => plain a (List.mem_flatMap.mpr ⟨_, member, named⟩)
  | listen now request response => exact followed.listen now request response

theorem Followed.stands (followed : s.Followed own routing) {a : NodeAddress} (apart : a ≠ own.address)
    {p : NodeState} (newest : NodeState.newest? ((s.told a).map Record.state) = some p) :
    ∃ n, s.table.node? a = some n ∧ n.placement = p.placement := by
  obtain ⟨events, table, heard⟩ := followed.table
  obtain ⟨n, known, shows⟩ := RoutingTable.node?_shows routing ((heard a apart).symm ▸ newest)
  exact ⟨n, table ▸ known, shows.1⟩

/-- What the sender says of itself overrides all before it. -/
theorem Followed.stands_sender (followed : s.Followed own routing) (now request response : UInt64) :
    ∃ n, (s.apply (.listen now request response)).table.node? own.address = some n ∧
      n.placement = own.placement := by
  obtain ⟨events, table, _⟩ := followed.table
  have sender : (s.view.message now).sender = own := followed.traced.owner
  have newest : NodeState.newest? (RoutingTable.standing own.address
      (events ++ RoutingTable.taking own.address (s.view.message now) request response)) = some own := by
    rw [RoutingTable.standing_taking, if_pos rfl, followed.peersOn, followed.traced.ours, sender]
    rfl
  obtain ⟨n, known, shows⟩ := RoutingTable.node?_shows routing newest
  rw [listen_table table, followed.traced.owner]
  exact ⟨n, known, shows.1⟩

/-- On a peer it stands with the view, or with a placeholder that is as new. -/
theorem Followed.stands_peer (followed : s.Followed own routing) {a : NodeAddress} {r : Record}
    (known : s.view.record? a = some r) (now request response : UInt64) :
    ∃ n, (s.apply (.listen now request response)).table.node? a = some n ∧
      ((∀ h, ¬ s.Misled r.state h) → n.placement = r.state.placement) ∧
      ∀ h, s.Misled r.state h → n.placement = h.placement := by
  have apart : a ≠ own.address := View.apart_of_record? followed.traced.ours known
  have here : r.state.address = a := (followed.traced.known a r known).1
  have listened := followed.listen now request response
  have told : (s.apply (.listen now request response)).told a = s.told a ++ [r] := by
    rw [told_listen, known, Option.toList_some]
  have moved : (s.told a ++ [r]).Pairwise Record.Leads := told ▸ listened.moved a apart
  obtain ⟨latest, newest⟩ := Option.ne_none_iff_exists'.mp
    (mt NodeState.newest?_eq_none.mp (by simp : (s.told a ++ [r]).map Record.state ≠ []))
  obtain ⟨n, found, stands⟩ := listened.stands apart (told ▸ newest)
  refine ⟨n, found, fun unmisled => ?_, fun h misled => ?_⟩
  · rcases newest?_of_leads moved newest with rfl | ⟨before, late⟩
    · exact stands
    · obtain ⟨v, heard, placeholder⟩ := List.mem_filterMap.mp before
      exact (unmisled latest ⟨v, heard, here ▸ placeholder, late⟩).elim
  · obtain ⟨v, heard, placeholder, late⟩ := misled
    have before : (⟨h, .provisional⟩ : Record) ∈ s.told a := List.mem_filterMap.mpr ⟨v, heard, here ▸ placeholder⟩
    cases newest.symm.trans (newest?_of_placeholder moved before late)
    exact stands

end Running

section Outcome

variable (space : KeySpace) (own : NodeState) (others : List NodeState) (updated : UInt64) (hasRuntime : Bool)
  (routing : KeySpace)

theorem start_followed (plain : ∀ a ∈ others.map (·.address), a.isLocalReference = false) :
    (start space own others updated hasRuntime routing).Followed own routing :=
  ⟨View.make_traced space own others updated hasRuntime fun _ member => plain _ (List.mem_map_of_mem member),
    fun _ _ => .nil, fun _ _ _ => List.not_mem_nil.elim, [], rfl, fun _ _ => rfl⟩

/-- Right after it listens to a view, a client stands with the view on the view's own node. And it does on
every peer in the message, unless it was told a placeholder of the peer before that is not older than the
state in the message; then it stands with the placeholder. -/
theorem listen_stands (steps : List Step)
    (plain : ∀ a ∈ others.map (·.address) ++ steps.flatMap Step.names, a.isLocalReference = false)
    (now request response : UInt64) :
    let s := (start space own others updated hasRuntime routing).replay steps
    let m := s.view.message now
    let s' := s.apply (.listen now request response)
    (∃ n, s'.table.node? m.sender.address = some n ∧ n.placement = m.sender.placement) ∧
    ∀ p ∈ m.peers, ∃ n, s'.table.node? p.address = some n ∧
      ((∀ h, ¬ s.Misled p h) → n.placement = p.placement) ∧ ∀ h, s.Misled p h → n.placement = h.placement := by
  intro s m s'
  have started : (start space own others updated hasRuntime routing).Followed own routing :=
    start_followed _ _ _ _ _ _ fun a named => plain a (List.mem_append_left _ named)
  have followed : s.Followed own routing :=
    started.replay fun a named => plain a (List.mem_append_right _ named)
  refine ⟨?_, fun p member => ?_⟩
  · have sender : m.sender = own := followed.traced.owner
    rw [sender]
    exact followed.stands_sender now request response
  · obtain ⟨a, status, known⟩ := View.mem_peerStates (v := s.view) |>.mp member
    obtain rfl : p.address = a := (followed.traced.known a _ known).1
    exact followed.stands_peer known now request response

end Outcome

/-- A server makes contact with another at time 20, which a client hears of, and then gets a report on it. -/
def contactHeard (updated : UInt64) : Session :=
  (start .circle (.serving "a" 1) [] 0 true .circle).replay
    [.server (.contact 20 ⟨"b", 1⟩ KeySpace.circle.emptyRange), .listen 21 1 2,
      .server (.merge 22 ⟨22, 22, .serving "b" updated, []⟩)]

/-- The client follows a report that is newer than the contact. -/
theorem newer_report_stands :
    ∃ n, ((contactHeard 30).apply (.listen 23 3 4)).table.node? ⟨"b", 1⟩ = some n ∧
      n.placement = (NodeState.serving "b" 30).placement := by
  obtain ⟨_, peers⟩ := listen_stands .circle (.serving "a" 1) [] 0 true .circle
    [.server (.contact 20 ⟨"b", 1⟩ KeySpace.circle.emptyRange), .listen 21 1 2,
      .server (.merge 22 ⟨22, 22, .serving "b" 30, []⟩)] (by decide) 23 3 4
  obtain ⟨n, known, follows, _⟩ := peers (.serving "b" 30) (by decide)
  refine ⟨n, known, follows fun h misled => ?_⟩
  obtain ⟨v, heard, placeholder, late⟩ := misled
  have made : ∀ v ∈ (contactHeard 30).heard, v.record? ⟨"b", 1⟩ =
      some ⟨.placeholder ⟨"b", 1⟩ KeySpace.circle.emptyRange 20, .provisional⟩ := by decide
  cases (made v heard).symm.trans placeholder
  exact absurd late (by decide)

/-- It does not follow an older one. -/
theorem older_report_missed :
    .serving "b" 10 ∈ ((contactHeard 10).view.message 23).peers ∧
    (((contactHeard 10).apply (.listen 23 3 4)).table.node? ⟨"b", 1⟩).map (·.placement) ≠
      some (NodeState.serving "b" 10).placement := by
  decide

end Session

end ReplicaRing
