import ReplicaRing.Proofs.Node.Directory
import ReplicaRing.Proofs.Routing.Versions

/-! What readers of a table see is the collection that updates work on. The collection is kept as a map and a list, and
a copy of the list is published; here all three are followed through what happens to the table. -/
namespace ReplicaRing

namespace RoutingTable

def Event.speaker? : Event → Option NodeAddress
  | .direct a _ _ _ _ => some a
  | .indirect reporter _ => some reporter
  | _ => none

end RoutingTable

namespace Directory

def take (d : Directory ServerNode) (event : RoutingTable.Event) : Directory ServerNode :=
  match event.about? with
  | some a => d.settle a (event.revise (d.get? a))
  | none => d

def follow (events : List RoutingTable.Event) : Directory ServerNode := events.foldl take .empty

theorem Agrees.take {d : Directory ServerNode} {t : RoutingTable} (agrees : d.Agrees t.nodes)
    (event : RoutingTable.Event) : (d.take event).Agrees (t.apply event).nodes := by
  rw [RoutingTable.nodes_apply, Directory.take]
  cases event.about? with
  | none => exact agrees
  | some a =>
    simp only [← agrees.index]
    exact agrees.settle a _

theorem follow_agrees (space : KeySpace) (events : List RoutingTable.Event) :
    (follow events).Agrees (RoutingTable.replay space events).nodes := by
  induction events using List.reverseRecOn with
  | nil => exact empty_agrees
  | append_singleton events event ih =>
    rw [follow, List.foldl_append, ← follow, RoutingTable.replay_append]
    exact ih.take event

end Directory

namespace RoutingTable

section Speakers

variable {a : NodeAddress}

/-- A local reference is one by its host, whatever the port. -/
theorem isLocalReference_withPort (a : NodeAddress) (port : UInt16) :
    (a.withPort port).isLocalReference = a.isLocalReference := rfl

theorem resolve_foreign {reporter : NodeAddress} (foreign : reporter.isLocalReference = false) (s : NodeState) :
    (resolve reporter s).isLocalReference = false := by
  unfold resolve
  split
  · rwa [isLocalReference_withPort]
  · rename_i absolute
    simpa using absolute

/-- A node that an event makes known is where its speaker says: not at a local reference, if the speaker is not. -/
theorem foreign_of_revise {event : Event} (foreign : ∀ b, event.speaker? = some b → b.isLocalReference = false)
    (about : event.about? = some a) (known : (event.revise none).isSome) : a.isLocalReference = false := by
  cases event with
  | direct b s request response cluster =>
    cases about
    exact foreign _ rfl
  | indirect reporter s =>
    cases about
    exact resolve_foreign (foreign reporter rfl) s
  | hint | remove => simp [Event.revise] at known
  | lookup full => cases about

theorem replay_foreign (space : KeySpace) {events : List Event}
    (foreign : ∀ event ∈ events, ∀ b, event.speaker? = some b → b.isLocalReference = false) :
    ∀ a ∈ (replay space events).nodes.addresses, a.isLocalReference = false := by
  refine replay_keeps (fun t => ∀ a ∈ t.nodes.addresses, a.isLocalReference = false) (fun a member => nomatch member)
    fun t before event among a member => ?_
  rw [← Registry.get?_isSome_iff, get?_apply] at member
  -- a node that was known has its address from before, any other has it from this event
  cases known : t.nodes.get? a with
  | some n => exact before a ((t.nodes.get?_isSome_iff).mp (by rw [known]; rfl))
  | none =>
    rw [known] at member
    split at member
    · rename_i about
      exact foreign_of_revise (foreign event among) about member
    · cases member

end Speakers

end RoutingTable

namespace Directory

/-- One collection, however it is kept. Whatever is entered and removed, the list has one entry for each address of the
map and no other, the node that was entered last for it, in the order of these last entries; a registry holds the same.
A table publishes the list of the collection that its updates work on, so its readers find the nodes that updates
reach; and no known address is a local reference if none is of those by which the table was told. -/
theorem collections_agree :
    (∀ {ν : Type} (changes : List (Change ν)),
      let d := run changes
      d.ordered = Change.lasting changes ∧
      (∀ a, (d.ordered.filter fun entry => entry.1 = a) = ((d.get? a).map fun value => (a, value)).toList) ∧
      (∀ a value, d.get? a = some value ↔ ∃ before after : List (Change ν),
        changes = before ++ Change.insert a value :: after ∧ ∀ change ∈ after, change.address ≠ a) ∧
      d.size = d.ordered.length ∧ d.ordered = (Registry.run changes).entries ∧
      ∀ a, d.get? a = (Registry.run changes).get? a) ∧
    ∀ (space : KeySpace) (events : List RoutingTable.Event),
      let t := RoutingTable.replay space events
      let d := follow events
      t.listed = d.ordered.map (·.1) ∧ t.discovered = d.ordered ∧ (∀ a, t.node? a = d.get? a) ∧
      t.serverCount = d.size ∧ t.nodes.entries = d.ordered ∧
      ((∀ event ∈ events, ∀ a, event.speaker? = some a → a.isLocalReference = false) →
        ∀ entry ∈ t.discovered, entry.1.isLocalReference = false) := by
  refine ⟨fun changes => ?_, fun space events => ?_⟩
  · have agrees := run_agrees changes
    have lasts : (run changes).ordered = Change.lasting changes := agrees.ordered.trans (Registry.entries_run changes)
    refine ⟨lasts, fun a => ?_, fun a value => ?_, ?_, agrees.ordered, agrees.index⟩
    · rw [agrees.ordered, agrees.index, Registry.filter_entries]
    · rw [agrees.index, Registry.get?_eq_some_iff, Registry.entries_run, Change.mem_lasting_iff]
    · rw [agrees.size, agrees.ordered, Registry.size]
  · intro t d
    have agrees : d.Agrees t.nodes := follow_agrees space events
    have listed : t.listed = t.nodes.addresses := RoutingTable.replay_listed space events
    have discovered : t.discovered = d.ordered := (RoutingTable.discovered_eq listed).trans agrees.ordered.symm
    refine ⟨?_, discovered, fun a => ?_, ?_, agrees.ordered.symm, fun foreign entry known => ?_⟩
    · rw [listed, agrees.ordered, Registry.addresses]
    · rw [RoutingTable.node?_eq listed, agrees.index]
    · rw [RoutingTable.serverCount, listed, Registry.addresses, List.length_map, agrees.size, Registry.size]
    · rw [RoutingTable.discovered_eq listed] at known
      exact RoutingTable.replay_foreign space foreign entry.1 (List.mem_map_of_mem known)

def reentered : List (Change Nat) :=
  [.insert ⟨"a", 1⟩ 1, .insert ⟨"b", 1⟩ 2, .insert ⟨"c", 1⟩ 3, .insert ⟨"a", 1⟩ 4, .remove ⟨"c", 1⟩]

/-- A node tells of its neighbour by a local reference, and then a hash of another space is looked up. -/
def neighbour : List RoutingTable.Event :=
  [.direct ⟨"10.0.0.9", 7000⟩ (RoutingTable.everywhere false 1) 0 0 0,
    .indirect ⟨"10.0.0.9", 7000⟩ { RoutingTable.everywhere false 1 with address := ⟨"localhost", 7001⟩ },
    .lookup (KeySpace.standard.hash 77)]

/-- The node that was entered again is last, under its second value; and readers are led to the neighbour by the
address of the node that told of it. -/
theorem neighbour_published :
    let t := RoutingTable.replay RoutingTable.quarters neighbour
    (run reentered).ordered = [(⟨"b", 1⟩, 2), (⟨"a", 1⟩, 4)] ∧ (run reentered).get? ⟨"a", 1⟩ = some 4 ∧
      t.listed = [⟨"10.0.0.9", 7000⟩, ⟨"10.0.0.9", 7001⟩] ∧
      (∀ event ∈ neighbour, ∀ a, event.speaker? = some a → a.isLocalReference = false) ∧
      ∀ entry ∈ t.discovered, entry.1.isLocalReference = false := by
  intro t
  obtain ⟨kept, tables⟩ := collections_agree
  obtain ⟨lasting, -, latest, -⟩ := kept reentered
  obtain ⟨-, -, -, -, -, foreign⟩ := tables RoutingTable.quarters neighbour
  have speakers : ∀ event ∈ neighbour, ∀ a, event.speaker? = some a → a.isLocalReference = false := by
    simp only [neighbour, List.forall_mem_cons, RoutingTable.Event.speaker?, Option.some.injEq, forall_eq']
    decide
  have last : (run reentered).get? ⟨"a", 1⟩ = some 4 :=
    (latest ⟨"a", 1⟩ 4).mpr ⟨reentered.take 3, [.remove ⟨"c", 1⟩], rfl, by decide⟩
  exact ⟨lasting.trans (by decide), last, by decide, speakers, foreign speakers⟩

end Directory
end ReplicaRing
