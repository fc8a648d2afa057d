import ReplicaRing.Membership.Peer
import ReplicaRing.Node.Registry

/-! One server's view of the cluster. The local node is never a peer, and no peer is ever forgotten.
Of the reports on a peer the newest wins, the first of equally new ones; so views that hear the same
reports agree in the end. Each peer has at most one worker that keeps it in sync. -/
namespace ReplicaRing

inductive WorkerState
  | active
  | cancelled
  | finished
deriving DecidableEq

structure Worker where
  peer : NodeAddress
  state : WorkerState
deriving DecidableEq

namespace Worker

def cancel (w : Worker) : Worker := if w.state = .active then { w with state := .cancelled } else w

def finish (w : Worker) : Worker := if w.state = .active then { w with state := .finished } else w

end Worker

/-- `workers` holds every worker that was ever started, in that order. Without a runtime none can be. -/
structure View where
  space : KeySpace
  own : NodeState
  peers : Registry Peer
  lastUpdated : UInt64
  running : Bool
  hasRuntime : Bool
  workers : List Worker

namespace View

/-- A view with the peers it is told of at first; the last state for an address counts. -/
def make (space : KeySpace) (own : NodeState) (others : List NodeState) (updated : UInt64)
    (hasRuntime : Bool) : View :=
  let peers := others.foldl
    (fun peers s => if s.address = own.address then peers else peers.insert s.address ⟨s, .confirmed, none⟩)
    .empty
  ⟨space, own, peers, updated, false, hasRuntime, []⟩

def size (v : View) : Nat := 1 + v.peers.size

def peerStates (v : View) : List NodeState := v.peers.entries.map fun entry => entry.2.state

def state? (v : View) (a : NodeAddress) : Option NodeState := (v.peers.get? a).map (·.state)

/-! ## Workers -/

def isSyncing (v : View) (p : Peer) : Bool :=
  (p.worker.bind (v.workers[·]?)).any (·.state = .active)

def syncing (v : View) : List NodeAddress :=
  (v.peers.entries.filter fun entry => v.isSyncing entry.2).map (·.1)

/-- Starts a worker for a peer that has none at work. -/
def startSync (v : View) (a : NodeAddress) : View :=
  match v.peers.get? a with
  | none => v
  | some p =>
    if v.isSyncing p || !v.hasRuntime then v
    else
      { v with
        workers := v.workers ++ [⟨a, .active⟩]
        peers := v.peers.modify a fun p => { p with worker := some v.workers.length } }

/-- Tells a peer's worker to stop. -/
def stopSync (v : View) (a : NodeAddress) : View :=
  match (v.peers.get? a).bind (·.worker) with
  | none => v
  | some i =>
    { v with
      workers := v.workers.modify i Worker.cancel
      peers := v.peers.modify a fun p => { p with worker := none } }

/-- A worker ends on its own. -/
def finish (v : View) (i : Nat) : View := { v with workers := v.workers.modify i Worker.finish }

def finishAll (v : View) : View := { v with workers := v.workers.map Worker.finish }

def start (v : View) : View := v.peers.addresses.foldl startSync { v with running := true }

def stopWorkers (v : View) : View := v.peers.addresses.foldl stopSync v

def stop (v : View) : View := stopWorkers { v with running := false }

def startedCount (v : View) : Nat := v.workers.length

def stoppedCount (v : View) : Nat := v.workers.countP (·.state = .cancelled)

/-! ## Reports -/

def addPeer (v : View) (a : NodeAddress) (s : NodeState) (status : PeerStatus) : View :=
  let v := { v with peers := v.peers.insert a ⟨s, status, none⟩ }
  if v.running then v.startSync a else v

/-- A node makes contact with the range it covers. Says whether it was unknown. -/
def contact (v : View) (now : UInt64) (a : NodeAddress) (range : KeyRange) : Bool × View :=
  if a = v.own.address then (false, v)
  else
    match v.peers.get? a with
    | some _ => (false, v)
    | none => (true, v.addPeer a ⟨a, none, range, range, false, now⟩ .provisional)

/-- Merges one reported state. Says whether a peer was added or changed. -/
def mergeState (v : View) (s : NodeState) : Bool × View :=
  if s.address = v.own.address then (false, v)
  else
    match v.peers.get? s.address with
    | none => (true, v.addPeer s.address s .confirmed)
    | some p =>
      let (changed, p) := p.update s
      (changed, { v with peers := v.peers.modify s.address fun _ => p })

/-- Merges a message at time `now`, the sender's state first. Counts the changes. -/
def merge (v : View) (now : UInt64) (m : StatusMessage) : Nat × View :=
  let (changes, v) := m.states.foldl
    (fun (changes, v) s =>
      let (changed, v) := mergeState v s
      (if changed then changes + 1 else changes, v))
    (0, v)
  (changes, if changes = 0 then v else { v with lastUpdated := max v.lastUpdated now })

def message (v : View) (now : UInt64) : StatusMessage := ⟨now, v.lastUpdated, v.own, v.peerStates⟩

/-! ## The view as a whole -/

def states (v : View) : List NodeState := v.own :: v.peerStates

def activeCoverage (v : View) : Nat := v.space.coverage (v.states.map NodeState.active)

def totalCoverage (v : View) : Nat := v.space.coverage (v.states.map NodeState.total)

/-- Rounded down, so that it is 100 for the whole space alone. -/
def percentage (v : View) (covered : Nat) : Nat :=
  if covered = v.space.length then 100 else 100 * covered / v.space.length

/-- A fingerprint of all states. Peers are summed, so their order does not matter. -/
def fingerprint (v : View) : UInt64 :=
  v.peerStates.foldl (fun sum s => sum + ReplicaRing.fingerprint s)
    (ReplicaRing.fingerprint v.space ^^^ ReplicaRing.fingerprint v.own)

end View
end ReplicaRing
