import ReplicaRing.Proofs.Routing.Reports

/-! Status messages as what happens to a table: a direct report of the sender, and indirect ones of its peers in
the order of the message. -/
namespace ReplicaRing

def NodeState.placement (s : NodeState) : KeyRange × KeyRange × Bool := (s.active, s.passive, s.disabled)

def NodeState.account (s : NodeState) : KeyRange × KeyRange × Bool × UInt64 :=
  (s.active, s.passive, s.disabled, s.lastUpdated)

def ServerNode.account (n : ServerNode) : KeyRange × KeyRange × Bool × UInt64 :=
  (n.active, n.passive, n.disabled, n.nodeFetched)

theorem ServerNode.Shows.account {n : ServerNode} {s : NodeState} (shows : n.Shows s) : n.account = s.account := by
  obtain ⟨placed, fetched⟩ := shows
  simp only [ServerNode.placement, Prod.mk.injEq] at placed
  simp only [ServerNode.account, NodeState.account, placed, fetched]

namespace RoutingTable

def accounts (t : RoutingTable) : List (NodeAddress × KeyRange × KeyRange × Bool × UInt64) :=
  t.discovered.map fun (a, n) => (a, n.account)

def taking (sender : NodeAddress) (m : StatusMessage) (request response : UInt64) : List Event :=
  .direct sender m.sender request response m.clusterUpdated :: m.peers.map (.indirect sender)

/-- The peers' states that are about a node, seen from the receiver of a message. -/
def peersOn (sender a : NodeAddress) (peers : List NodeState) : List NodeState :=
  peers.filter fun s => resolve sender s = a

variable {sender : NodeAddress} {m : StatusMessage} {request response : UInt64}

theorem ingest_eq (t : RoutingTable) (sender : NodeAddress) (m : StatusMessage) (request response : UInt64) :
    (t.ingest sender m request response).2 = (taking sender m request response).foldl apply t := by
  rw [taking, List.foldl_cons, List.foldl_map]
  exact (List.foldl_hom Prod.snd fun _ _ => rfl).symm

theorem ingest_replay (space : KeySpace) (events : List Event) (sender : NodeAddress) (m : StatusMessage)
    (request response : UInt64) : ((replay space events).ingest sender m request response).2 =
      replay space (events ++ taking sender m request response) := by
  rw [ingest_eq, replay_append]

/-- After a message its own word stands on its sender, and what stood before on all others, with what it says of
them after that. -/
theorem standing_taking (events : List Event) (a : NodeAddress) :
    standing a (events ++ taking sender m request response) =
      (if sender = a then [m.sender] else standing a events) ++ peersOn sender a m.peers := by
  have direct : standing a (events ++ [.direct sender m.sender request response m.clusterUpdated]) =
      if sender = a then [m.sender] else standing a events := by
    by_cases here : sender = a <;> simp [standing_concat, Event.removes, Event.isDirect, Event.reportOn?, here]
  rw [taking, ← List.singleton_append, ← List.append_assoc, ← direct]
  -- The peers are induced on from the last one, as what stands is known when one event is added.
  generalize events ++ [_] = before
  generalize m.peers = peers
  induction peers using List.reverseRecOn with
  | nil => simp [peersOn]
  | append_singleton peers s ih =>
    rw [List.map_append, ← List.append_assoc, List.map_singleton, standing_concat, ih]
    by_cases here : resolve sender s = a <;>
      simp [Event.removes, Event.isDirect, Event.reportOn?, peersOn, here]

end RoutingTable
end ReplicaRing
