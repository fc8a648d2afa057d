import ReplicaRing.Proofs.Membership.LastWriter
import ReplicaRing.Proofs.Routing.Message

/-! What a client makes of the first message it gets. A message names no node twice, and a client that knows
none adds every node it is told of, in order. So it ends up with the view of the server that sent it. -/
namespace ReplicaRing

namespace View

variable {v : View} {own : NodeState} {source : NodeState → Prop}

theorem Traced.addresses (traced : v.Traced own source) :
    v.peerStates.map (·.address) = v.peers.addresses := by
  rw [peerStates, Registry.addresses, List.map_map]
  refine List.map_congr_left fun entry member => ?_
  have known : v.record? entry.1 = some entry.2.record := by
    rw [record?, v.peers.get?_eq_some_iff.mpr member, Option.map_some]
  exact (traced.known entry.1 _ known).1

/-- A view speaks of each node once, itself included. -/
theorem Traced.states_distinct (traced : v.Traced own source) : (v.states.map (·.address)).Nodup := by
  rw [states, List.map_cons, traced.addresses, List.nodup_cons]
  refine ⟨fun member => ?_, v.peers.distinct⟩
  obtain ⟨entry, among, here⟩ := List.mem_map.mp member
  have known := v.peers.get?_eq_some_iff.mpr among
  have ours : v.record? v.own.address = none := by rw [traced.owner, traced.ours]
  simp [record?, ← here, known] at ours

end View

namespace RoutingTable

/-- The table knows just the nodes that the states are of, in their order, each as its state says, and has
changed once for each. -/
structure Mirrors (t : RoutingTable) (states : List NodeState) : Prop where
  listed : t.listed = t.nodes.addresses
  nodes : (t.nodes.entries.map fun (a, n) => (a, n.account)) = states.map fun s => (s.address, s.account)
  version : t.version = 1 + states.length

section Mirroring

variable {t : RoutingTable} {states : List NodeState}

theorem Mirrors.unknown (mirrors : t.Mirrors states) {a : NodeAddress} (other : a ∉ states.map (·.address)) :
    t.nodes.get? a = none := by
  rw [Option.eq_none_iff_forall_not_mem]
  intro n found
  have named := congrArg (List.map (·.1)) mirrors.nodes
  simp only [List.map_map, Function.comp_def] at named
  rw [← named] at other
  exact other (List.mem_map_of_mem (t.nodes.get?_eq_some_iff.mp found))

theorem Mirrors.addNode (mirrors : t.Mirrors states) {s : NodeState} {n : ServerNode}
    (other : s.address ∉ states.map (·.address)) (shows : n.Shows s) :
    (t.addNode s.address n).raise.Mirrors (states ++ [s]) := by
  refine ⟨rfl, ?_, ?_⟩
  · simp only [raise, RoutingTable.addNode, Registry.entries_insert_new _ (mirrors.unknown other), List.map_append,
      mirrors.nodes, List.map_cons, List.map_nil, shows.account]
  · simp only [raise, RoutingTable.addNode, mirrors.version, List.length_append, List.length_singleton]
    omega

theorem Mirrors.updateIndirect (mirrors : t.Mirrors states) (reporter : NodeAddress) {s : NodeState}
    (plain : s.address.isLocalReference = false) (other : s.address ∉ states.map (·.address)) :
    (t.updateIndirect reporter s).2.Mirrors (states ++ [s]) := by
  have here : resolve reporter s = s.address := by simp [resolve, plain]
  simp only [RoutingTable.updateIndirect, here, mirrors.unknown other]
  exact mirrors.addNode other ⟨rfl, rfl⟩

/-- Reports on nodes that are not known yet, each on another one, add them in their order. -/
theorem Mirrors.reports (mirrors : t.Mirrors states) (reporter : NodeAddress) {more : List NodeState}
    (plain : ∀ s ∈ more, s.address.isLocalReference = false)
    (distinct : ((states ++ more).map (·.address)).Nodup) :
    ((more.map (.indirect reporter)).foldl apply t).Mirrors (states ++ more) := by
  induction more generalizing t states with
  | nil => rwa [List.append_nil]
  | cons s more ih =>
    rw [List.append_cons] at distinct ⊢
    have other : s.address ∉ states.map (·.address) := by
      intro known
      rw [List.map_append, List.map_append] at distinct
      have apart := (List.nodup_append.mp (List.nodup_append.mp distinct).1).2.2
      exact apart _ known _ (by simp) rfl
    exact ih (mirrors.updateIndirect reporter (plain s (.head _)) other)
      (fun s member => plain s (.tail _ member)) distinct

/-- A table without nodes takes over all nodes of a message, if it says one thing of each. -/
theorem ingest_mirrors (space : KeySpace) (m : StatusMessage) (request response : UInt64)
    (plain : ∀ s ∈ m.peers, s.address.isLocalReference = false) (distinct : (m.states.map (·.address)).Nodup) :
    ((empty space).ingest m.sender.address m request response).2.Mirrors m.states := by
  have none : (empty space).Mirrors [] := ⟨rfl, rfl, rfl⟩
  have first : ((empty space).updateDirect m.sender.address m.sender request response m.clusterUpdated).2.Mirrors
      [m.sender] :=
    none.addNode (by simp) ⟨rfl, rfl⟩
  rw [ingest_eq]
  exact first.reports m.sender.address plain distinct

theorem Mirrors.accounts (mirrors : t.Mirrors states) : t.accounts = states.map fun s => (s.address, s.account) := by
  rw [RoutingTable.accounts, discovered_eq mirrors.listed, mirrors.nodes]

theorem Mirrors.serverCount (mirrors : t.Mirrors states) : t.serverCount = states.length := by
  have counted := congrArg List.length mirrors.nodes
  rw [List.length_map, List.length_map] at counted
  rw [RoutingTable.serverCount, mirrors.listed, Registry.addresses, List.length_map, counted]

theorem Mirrors.totals (mirrors : t.Mirrors states) :
    t.discovered.map (fun (_, n) => n.total) = states.map NodeState.total := by
  let total (shown : NodeAddress × KeyRange × KeyRange × Bool × UInt64) : KeyRange := shown.2.1.union shown.2.2.1
  have totals := congrArg (List.map total) mirrors.accounts
  rwa [RoutingTable.accounts, List.map_map, List.map_map] at totals

end Mirroring

/-- A first message brings a client to the view of its sender. Whatever happened to the view, a client of the
same space that knows no node then knows the server itself and its peers, in the order of the view and each as
its state says; it counts as many nodes as the view, its version has risen once for each, and it covers as many
slots. -/
theorem first_message_mirrors (space : KeySpace) (own : NodeState) (others : List NodeState) (updated : UInt64)
    (hasRuntime : Bool) (events : List View.Event) (now request response : UInt64) :
    let v := (View.make space own others updated hasRuntime).replay events
    let t := ((empty space).ingest v.own.address (v.message now) request response).2
    (∀ s ∈ v.states, s.address.isLocalReference = false) →
    t.accounts = v.states.map (fun s => (s.address, s.account)) ∧
      t.discovered.map (fun (_, n) => n.total) = v.states.map NodeState.total ∧
      t.serverCount = v.size ∧ t.version = 1 + v.size ∧ t.coverage = v.totalCoverage := by
  intro v t plain
  have traced : v.Traced own fun _ => True := View.replay_addressed space own others updated hasRuntime events
  have mirrors : t.Mirrors v.states :=
    ingest_mirrors space (v.message now) request response (fun s member => plain s (.tail _ member))
      traced.states_distinct
  have size : v.states.length = v.size := by
    rw [View.states, List.length_cons, View.peerStates, List.length_map, View.size, Registry.size, Nat.add_comm]
  have told : t = replay space (taking v.own.address (v.message now) request response) :=
    ingest_replay space [] v.own.address (v.message now) request response
  have same_space : t.space = v.space := calc
    t.space = space := by rw [told, replay_space]
    _ = v.space := ((View.make space own others updated hasRuntime).replay_frame events).space.symm
  refine ⟨mirrors.accounts, mirrors.totals, mirrors.serverCount.trans size, ?_, ?_⟩
  · rw [mirrors.version, size]
  · rw [coverage, View.totalCoverage, same_space, mirrors.totals]

/-- A client that hears of three peers first, one of them known from a contact only, knows each as its server
does. -/
theorem first_message_of_three :
    let events : List View.Event := View.newerFirst ++ [.contact 12 ⟨"d", 1⟩ KeySpace.circle.emptyRange]
    let v := (View.make .circle (.serving "a" 1) [] 0 true).replay events
    let t := ((empty .circle).ingest v.own.address (v.message 13) 14 15).2
    let known : List NodeState := [.serving "a" 1, .serving "b" 3, .serving "c" 5,
      .placeholder ⟨"d", 1⟩ KeySpace.circle.emptyRange 12]
    (∀ s ∈ v.states, s.address.isLocalReference = false) ∧
      t.accounts = known.map (fun s => (s.address, s.account)) ∧
      t.serverCount = 4 ∧ t.version = 5 ∧ t.coverage = 8 := by
  intro events v t known
  have plain : ∀ s ∈ v.states, s.address.isLocalReference = false := by decide
  have states : v.states = known := by decide
  have size : v.size = 4 := by decide
  have total : v.totalCoverage = 8 := by
    rw [View.totalCoverage, states]
    decide +kernel
  obtain ⟨shown, _, count, version, covered⟩ :=
    first_message_mirrors .circle (.serving "a" 1) [] 0 true events 13 14 15 plain
  exact ⟨plain, shown.trans (by rw [states]), count.trans size, version.trans (by rw [size]), covered.trans total⟩

end RoutingTable
end ReplicaRing
