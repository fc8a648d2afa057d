import ReplicaRing.Operation.Goal
import ReplicaRing.Operation.Network

/-! Runs of an operation over an ordered list of nodes. Before every attempt the goal, the signal and
the one deadline are looked at, so a round ends as soon as any of them says so. Each run keeps its
history. -/
namespace ReplicaRing

/-- `called` unless too little time was left for a call. -/
structure Attempt (α : Type) where
  node : Candidate
  round : Round
  started : Nat
  allotted : Nat
  called : Bool
  result : CallResult α
  ended : Nat

inductive Event (α : Type)
  | attempt (attempt : Attempt α)
  | pause (started ended : Nat)

/-- `retries` are the nodes that failed and may recover, in the order in which they are tried again. -/
structure Run (ω α : Type) where
  candidates : List Candidate
  now : Nat
  signal : StopSignal
  world : ω
  goal : Goal α
  retries : List NodeFailure
  failed : List NodeFailure
  missing : List Candidate
  history : List (Event α)

structure OperationResult (α : Type) where
  goal : Goal α
  candidates : Nat
  failures : List NodeFailure
  missing : List Candidate

/-- What a run goes by. With prompt timers nothing goes on after the deadline. -/
structure Operation (ω α : Type) where
  network : Network ω α
  limits : Limits
  deadline : Nat

/-- A round that lasts this long is followed by the next one without a pause. -/
def quickRound : Nat := nanosPerSecond

def Candidate.ofAddresses (addresses : List NodeAddress) : List Candidate :=
  addresses.zipIdx.map fun (address, position) => ⟨position, address⟩

namespace OperationResult

variable {α : Type}

def succeeded (r : OperationResult α) : Bool := r.goal.succeeded

/-- Nodes failed, rather than none being there to ask or none having the content. -/
def failed (r : OperationResult α) : Bool := !r.succeeded && !r.failures.isEmpty

end OperationResult

namespace Run

variable {ω α : Type}

def start (candidates : List Candidate) (goal : Goal α) (world : ω) (now : Nat) (signal : StopSignal) :
    Run ω α :=
  ⟨candidates, now, signal, world, goal, [], [], [], []⟩

def isStopped (r : Run ω α) : Bool := r.signal.cameBy r.now

/-- Nothing more is to be done in the round. -/
def isOver (r : Run ω α) (round : Round) : Bool := r.isStopped || r.goal.isComplete round

def attempts (r : Run ω α) : List (Attempt α) :=
  r.history.filterMap fun
    | .attempt a => some a
    | .pause _ _ => none

/-- Nodes that failed for good come first. -/
def result (r : Run ω α) : OperationResult α :=
  ⟨r.goal, r.candidates.length, r.failed ++ r.retries, r.missing⟩

def recordSuccess (r : Run ω α) (node : Candidate) (value : α) : Run ω α :=
  { r with goal := r.goal.recordSuccess node value }

def recordMissing (r : Run ω α) (node : Candidate) : Run ω α :=
  { r with goal := r.goal.recordMissing node, missing := r.missing ++ [node] }

end Run

namespace Operation

variable {ω α : Type}

def mayAttempt (op : Operation ω α) (round : Round) (r : Run ω α) : Bool :=
  !r.isOver round && r.now + op.limits.minimumTimeout < op.deadline

/-- Time a call may take if it starts now. -/
def allotted (op : Operation ω α) (r : Run ω α) : Nat := min (op.deadline - r.now) op.limits.callTimeout

/-- A call to a node, or at once a timeout if a call is not worth making. -/
def attempt (op : Operation ω α) (round : Round) (node : Candidate) (r : Run ω α) :
    CallResult α × Run ω α :=
  let allotted := op.allotted r
  let context : CallContext := ⟨node.address, r.now, allotted, op.limits.excerptLength⟩
  if allotted < op.limits.minimumTimeout then
    let result := .failure (context.failure r.now .timeout)
    (result, { r with history := r.history ++ [.attempt ⟨node, round, r.now, allotted, false, result, r.now⟩] })
  else
    let e := Ending.ofAnswer op.network.timers context r.signal (op.network.call r.world context)
    (e.result,
      { r with
        now := e.ended
        signal := e.signal
        world := e.world
        history := r.history ++ [.attempt ⟨node, round, r.now, allotted, true, e.result, e.ended⟩] })

/-- Files the result of the first attempt on a node. -/
def file (op : Operation ω α) (node : Candidate) (result : CallResult α) (r : Run ω α) : Run ω α :=
  match result with
  | .success value => r.recordSuccess node value
  | .missing => r.recordMissing node
  | .failure f =>
    if op.limits.allowRetries && f.isRetriable then { r with retries := r.retries ++ [.ofCall node f] }
    else { r with failed := r.failed ++ [.ofCall node f] }

/-- A node's first attempt. Says whether the round goes on. -/
def tryFirst (op : Operation ω α) (round : Round) (node : Candidate) (r : Run ω α) : Bool × Run ω α :=
  if op.mayAttempt round r then
    let (result, r) := op.attempt round node r
    let r := op.file node result r
    (!r.isOver round, r)
  else (false, r)

/-- First attempts on all nodes. Says whether the operation goes on. -/
def sweep (op : Operation ω α) (round : Round) : List Candidate → Run ω α → Bool × Run ω α
  | [], r => (true, r)
  | node :: rest, r =>
    match op.tryFirst round node r with
    | (true, r) => op.sweep round rest r
    | (false, r) => (false, r)

/-- Whether a node is left to the disabled round; without retries none is. -/
def leavesOut (op : Operation ω α) (node : Candidate) (r : Run ω α) : Bool :=
  op.limits.allowRetries && op.network.isDisabled r.world node.address

/-- First attempts on the enabled nodes. Says whether the operation goes on, and which nodes were
left out. -/
def primary (op : Operation ω α) : List Candidate → Run ω α → Bool × List Candidate × Run ω α
  | [], r => (true, [], r)
  | node :: rest, r =>
    if op.leavesOut node r then
      if r.goal.stopsAtDisabled then (true, node :: rest, r)
      else
        let (goesOn, skipped, r) := op.primary rest r
        (goesOn, node :: skipped, r)
    else
      match op.tryFirst .primary node r with
      | (true, r) => op.primary rest r
      | (false, r) => (false, [], r)

/-- Files the result of another attempt on a failed node that stood between `kept` and `rest` among
the retries. Returns the nodes now before `rest` too. -/
def refile (kept : List NodeFailure) (node : NodeFailure) (rest : List NodeFailure)
    (result : CallResult α) (r : Run ω α) : List NodeFailure × Run ω α :=
  match result with
  | .success value => (kept, { r.recordSuccess node.node value with retries := kept ++ rest })
  | .missing => (kept, { r.recordMissing node.node with retries := kept ++ rest })
  | .failure f =>
    if f.isRetriable then
      (kept ++ [node.add f], { r with retries := kept ++ [node.add f] ++ rest })
    else (kept, { r with failed := r.failed ++ [node.add f], retries := kept ++ rest })

/-- Tries the failed nodes of the second list once more each; those of the first one had their turn.
Says whether the operation goes on. -/
def retryEach (op : Operation ω α) (round : Round) (kept : List NodeFailure) :
    List NodeFailure → Run ω α → Bool × Run ω α
  | [], r => (true, r)
  | node :: rest, r =>
    if op.mayAttempt round r then
      let (result, r) := op.attempt round node.node r
      let (kept, r) := refile kept node rest result r
      if r.isOver round then (false, r) else op.retryEach round kept rest r
    else (false, r)

/-- Waits before the next round, unless the last one was long or time is short. Says whether the wait
was not interrupted. -/
def pause (op : Operation ω α) (roundStart : Nat) (r : Run ω α) : Bool × Run ω α :=
  if quickRound ≤ r.now - roundStart ∨ op.deadline - r.now < 4 * op.limits.retryDelay then (true, r)
  else
    let wake := op.network.timers.wake r.now op.limits.retryDelay
    match r.signal.filter (· ≤ wake) with
    | some time =>
      let woken := max r.now time
      (false, { r with now := woken, history := r.history ++ [.pause r.now woken] })
    | none => (true, { r with now := wake, history := r.history ++ [.pause r.now wake] })

/-- A pause and another attempt on every failed node. Says when the attempts began, if the operation
goes on. -/
def retryRound (op : Operation ω α) (round : Round) (roundStart : Nat) (r : Run ω α) :
    Option Nat × Run ω α :=
  match op.pause roundStart r with
  | (false, r) => (none, r)
  | (true, r) =>
    let began := r.now
    let (goesOn, r) := op.retryEach round [] r.retries r
    (if goesOn then some began else none, r)

/-- Further rounds, at most `left` of them, while there are nodes to try again. -/
def extraRounds (op : Operation ω α) : (left number roundStart : Nat) → Run ω α → Run ω α
  | 0, _, _, r => r
  | left + 1, number, roundStart, r =>
    if r.retries.isEmpty || !op.mayAttempt (.extra number) r then r
    else
      match op.retryRound (.extra number) roundStart r with
      | (some began, r) => op.extraRounds left (number + 1) began r
      | (none, r) => r

/-- The rounds after the primary one, which began at `roundStart`. -/
def laterRounds (op : Operation ω α) (roundStart : Nat) (skipped : List Candidate) (r : Run ω α) :
    Run ω α :=
  let (began, r) := if r.retries.isEmpty then (some roundStart, r) else op.retryRound .retry roundStart r
  match began with
  | none => r
  | some began =>
    match op.sweep .disabled skipped r with
    | (true, r) => op.extraRounds op.limits.maxRetryRounds 1 began r
    | (false, r) => r

def drive (op : Operation ω α) (r : Run ω α) : Run ω α :=
  let roundStart := r.now
  let (goesOn, skipped, r) := op.primary r.candidates r
  if goesOn && op.limits.allowRetries && op.mayAttempt .retry r then op.laterRounds roundStart skipped r
  else r

/-- Runs an operation over the nodes, best first, from `now` on. -/
def run (network : Network ω α) (limits : Limits) (goal : Goal α) (nodes : List NodeAddress)
    (world : ω) (now : Nat) (signal : StopSignal) : Run ω α :=
  let r := Run.start (Candidate.ofAddresses nodes) goal world now signal
  if nodes.isEmpty || nodes.length < goal.minCandidates then r
  else drive ⟨network, limits, now + limits.operationTimeout⟩ r

end Operation
end ReplicaRing
