import ReplicaRing.Key
import ReplicaRing.Node.Registry
import ReplicaRing.Node.Server
import Std.Data.TreeMap

/-! Which nodes to ask for a key. Routes are kept per slot under the version they were computed at;
every change of a range, a flag or the set of nodes raises the version, which makes all kept routes
stale at once. A route holds addresses, so what it leads to is always current. -/
namespace ReplicaRing

/-- The nodes to ask, best first. -/
structure Route where
  version : Nat
  nodes : List NodeAddress
deriving DecidableEq

/-- Updates work on `nodes`. Readers work on `listed`, the addresses in order of discovery, which is
renewed when a node is added or removed. -/
structure RoutingTable where
  space : KeySpace
  nodes : Registry ServerNode
  listed : List NodeAddress
  version : Nat
  routes : Std.TreeMap Nat Route

namespace Route

def text (r : Route) : String :=
  let names := ",".intercalate (r.nodes.map NodeAddress.text)
  s!"[v{r.version}:{names}]"

end Route

namespace RoutingTable

def empty (space : KeySpace) : RoutingTable := ⟨space, .empty, [], 1, ∅⟩

def serverCount (t : RoutingTable) : Nat := t.listed.length

/-- Known nodes in order of discovery. -/
def discovered (t : RoutingTable) : List (NodeAddress × ServerNode) :=
  t.listed.filterMap fun a => (t.nodes.get? a).map fun n => (a, n)

def node? (t : RoutingTable) (a : NodeAddress) : Option ServerNode :=
  (t.discovered.find? fun entry => entry.1 = a).map (·.2)

/-- Nodes that are not known are not disabled. -/
def isDisabled (t : RoutingTable) (a : NodeAddress) : Bool := (t.node? a).any (·.disabled)

def hashKey (t : RoutingTable) (key : String) : KeyHash := t.space.hash (routingHash key)

def raise (t : RoutingTable) : RoutingTable := { t with version := t.version + 1 }

/-- The nodes that cover the hash, nearest first and disabled ones a turn behind; ties stay in order of
discovery. -/
def computeRoute (t : RoutingTable) (hash : KeyHash) : Route :=
  let covering := t.discovered.filter fun (_, n) => n.total.contains hash
  ⟨t.version, (covering.mergeSort fun x y => x.2.rank hash ≤ y.2.rank hash).map (·.1)⟩

/-- The kept route of the slot while it is current, else a new one, which is kept. -/
def lookup (t : RoutingTable) (hash : KeyHash) : Route × RoutingTable :=
  let slot := hash.slot % t.space.length
  match (t.routes[slot]?).filter (·.version = t.version) with
  | some route => (route, t)
  | none =>
    let route := t.computeRoute hash
    (route, { t with routes := t.routes.insert slot route })

def addNode (t : RoutingTable) (a : NodeAddress) (n : ServerNode) : RoutingTable :=
  let nodes := t.nodes.insert a n
  { t with nodes, listed := nodes.addresses }

/-- Replaces the value of a known node; the version rises if its placement does change. -/
def changeNode (t : RoutingTable) (a : NodeAddress) (old new : ServerNode) : Bool × RoutingTable :=
  let t' := { t with nodes := t.nodes.modify a fun _ => new }
  if old.placement = new.placement then (false, t') else (true, t'.raise)

/-- Takes a report of the node at `a` itself, whatever its age. Says whether routing changed. -/
def updateDirect (t : RoutingTable) (a : NodeAddress) (s : NodeState)
    (request response cluster : UInt64) : Bool × RoutingTable :=
  let seen (n : ServerNode) : ServerNode :=
    { n.place s with
      requestSent := request, responseReceived := response, nodeFetched := s.lastUpdated
      clusterFetched := cluster }
  match t.nodes.get? a with
  | some n => t.changeNode a n (seen n)
  | none => (true, (t.addNode a (seen (.make s.active s.passive))).raise)

/-- The address a report is about, seen from its receiver. -/
def resolve (reporter : NodeAddress) (s : NodeState) : NodeAddress :=
  if s.address.isLocalReference then reporter.withPort s.address.port else s.address

/-- Takes a report about another node, if it is newer than what is known. Says whether routing
changed. -/
def updateIndirect (t : RoutingTable) (reporter : NodeAddress) (s : NodeState) : Bool × RoutingTable :=
  let a := resolve reporter s
  let seen (n : ServerNode) : ServerNode := { n.place s with nodeFetched := s.lastUpdated }
  match t.nodes.get? a with
  | some n => if s.lastUpdated ≤ n.nodeFetched then (false, t) else t.changeNode a n (seen n)
  | none => (true, (t.addNode a (seen (.make s.active s.passive))).raise)

/-- Takes the cluster time a node advertised with an answer. Says whether the time known of the node
changed; routing does not. -/
def hint (t : RoutingTable) (a : NodeAddress) (request response available : UInt64) :
    Bool × RoutingTable :=
  match t.nodes.get? a with
  | none => (false, t)
  | some n =>
    let n' := n.hint request response available
    (n'.clusterAvailable != n.clusterAvailable, { t with nodes := t.nodes.modify a fun _ => n' })

/-- Forgets a node. Says whether it was known. -/
def remove (t : RoutingTable) (a : NodeAddress) : Bool × RoutingTable :=
  match t.nodes.get? a with
  | none => (false, t)
  | some _ =>
    let nodes := t.nodes.erase a
    (true, { t with nodes, listed := nodes.addresses }.raise)

/-- Takes a status message: what its sender says of itself directly, and of its peers indirectly. -/
def ingest (t : RoutingTable) (sender : NodeAddress) (m : StatusMessage) (request response : UInt64) :
    Bool × RoutingTable :=
  m.peers.foldl
    (fun (changed, t) s =>
      let (more, t) := t.updateIndirect sender s
      (changed || more, t))
    (t.updateDirect sender m.sender request response m.clusterUpdated)

/-- Slots that some known node covers. -/
def coverage (t : RoutingTable) : Nat := t.space.coverage (t.discovered.map fun entry => entry.2.total)

def isFullyAvailable (t : RoutingTable) : Bool := t.coverage == t.space.length

def summary (t : RoutingTable) : String :=
  s!"RoutingTable \x7b keyspace: KeySpace \x7b length: {t.space.length} \x7d, version: {t.version}, servers: {t.serverCount} \x7d"

end RoutingTable
end ReplicaRing
