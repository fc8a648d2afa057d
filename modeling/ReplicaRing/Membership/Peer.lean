import ReplicaRing.Node.State
import ReplicaRing.Text.Hidden

/-! A peer of the local server and what it is known by. A provisional peer is a placeholder made from
what the peer said of itself on first contact; any report replaces it. -/
namespace ReplicaRing

inductive PeerStatus
  | provisional
  | confirmed
deriving DecidableEq

/-- `worker` numbers the peer's worker among all that were started, until it is told to stop. -/
structure Peer where
  state : NodeState
  status : PeerStatus
  worker : Option Nat
deriving DecidableEq

def NodeAddress.summary (a : NodeAddress) : String :=
  let host := Text.quoted a.host
  s!"NodeAddress \x7b host: {host}, port: {a.port.toNat} \x7d"

def KeyRange.summary (r : KeyRange) : String :=
  s!"KeyRange \x7b keyspace: KeySpace \x7b length: {r.space.length} \x7d, start: {r.start}, length: {r.length} \x7d"

namespace Peer

/-- A known peer takes a report only if it is newer. Says whether the peer changed. -/
def update (p : Peer) (s : NodeState) : Bool × Peer :=
  if p.status = .confirmed ∧ s.lastUpdated ≤ p.state.lastUpdated then (false, p)
  else (decide (p.status = .provisional ∨ p.state ≠ s), { p with state := s, status := .confirmed })

def summary (p : Peer) : String :=
  let status := match p.status with
    | .provisional => "Provisional"
    | .confirmed => "Confirmed"
  s!"Peer \x7b address: {p.state.address.summary}, status: {status}, range_active: {p.state.active.summary}, range_passive: {p.state.passive.summary} \x7d"

end Peer
end ReplicaRing
