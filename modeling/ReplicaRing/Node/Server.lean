import ReplicaRing.Node.State

/-! A server node as a client sees it: its ranges, its flag, and how fresh that knowledge is. The
times say nothing about routing; only ranges and flag do. -/
namespace ReplicaRing

/-- `nodeFetched` dates the state in use, `clusterFetched` the last status message from the node, and
`clusterAvailable` the newest one it is known to have. -/
structure ServerNode where
  active : KeyRange
  passive : KeyRange
  disabled : Bool
  requestSent : UInt64
  responseReceived : UInt64
  nodeFetched : UInt64
  clusterFetched : UInt64
  clusterAvailable : UInt64
deriving DecidableEq

namespace ServerNode

def make (active passive : KeyRange) : ServerNode := ⟨active, passive, false, 0, 0, 0, 0, 1⟩

def total (n : ServerNode) : KeyRange := n.active.union n.passive

/-- Order of preference for a key: steps to the active range, and a disabled node a whole turn behind.
A node is selected by its total range, so it may fill a larger passive range before it is preferred. -/
def rank (n : ServerNode) (hash : KeyHash) : Nat :=
  n.active.distance hash + if n.disabled then n.active.space.length else 0

/-- What routing depends on. -/
def placement (n : ServerNode) : KeyRange × KeyRange × Bool := (n.active, n.passive, n.disabled)

def place (n : ServerNode) (s : NodeState) : ServerNode :=
  { n with active := s.active, passive := s.passive, disabled := s.disabled }

/-- Takes note of a newer cluster state. An answer that is not newer than the last one is ignored. -/
def hint (n : ServerNode) (request response available : UInt64) : ServerNode :=
  if n.responseReceived < response then
    { n with requestSent := request, responseReceived := response, clusterAvailable := available }
  else n

end ServerNode
end ReplicaRing
