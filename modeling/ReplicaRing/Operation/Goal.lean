import ReplicaRing.Call.Failure

/-! What an operation over several nodes may spend, and when it has done enough. A read ends with the first success; a
delete counts successes, and asks for fewer of them the later the round. -/
namespace ReplicaRing

/-- Time and retries an operation may spend. `minimumTimeout` is the least time a call is worth making with. Times are
nanoseconds, of any number: machine time ends some 2 ^ 62 seconds on, and a program fails that is to tell a later end
of its operation, or a delay four times as long. -/
structure Limits where
  operationTimeout : Nat
  callTimeout : Nat
  minimumTimeout : Nat
  retryDelay : Nat
  allowRetries : Bool
  maxRetryRounds : Nat
  excerptLength : Nat
deriving DecidableEq

/-- The rounds of an operation: all enabled nodes; those that failed and may recover; the nodes left
out as disabled; then whatever may still recover, a limited number of times. -/
inductive Round
  | primary
  | retry
  | disabled
  | extra (number : Nat)
deriving DecidableEq

/-- How many nodes a delete has to succeed on. -/
structure Thresholds where
  minimal : Nat
  optimal : Nat
  maximal : Nat
deriving DecidableEq

/-- A value and the node it came from. -/
structure Found (α : Type) where
  node : Candidate
  value : α

/-- What is aimed at, and how far it has come. -/
inductive Goal (α : Type)
  | read (found : Option (Found α))
  | delete (thresholds : Thresholds) (done : List Candidate)

namespace Goal

variable {α : Type}

/-- With fewer candidates an operation is not begun. -/
def minCandidates : Goal α → Nat
  | read _ => 1
  | delete thresholds _ => thresholds.minimal

/-- The primary round ends at the first disabled node, rather than leave it out. -/
def stopsAtDisabled : Goal α → Bool
  | read _ => false
  | delete _ _ => true

def recordSuccess (node : Candidate) (value : α) : Goal α → Goal α
  | read _ => read (some ⟨node, value⟩)
  | delete thresholds done => delete thresholds (done ++ [node])

/-- What is missing is as good as deleted. -/
def recordMissing (node : Candidate) : Goal α → Goal α
  | read found => read found
  | delete thresholds done => delete thresholds (done ++ [node])

def reached (thresholds : Thresholds) (oks : Nat) : Round → Bool
  | .primary => thresholds.maximal ≤ oks
  | .retry => thresholds.optimal ≤ oks
  | .disabled | .extra _ => thresholds.minimal ≤ oks

/-- No more nodes are called in the round. -/
def isComplete (round : Round) : Goal α → Bool
  | read found => found.isSome
  | delete thresholds done => reached thresholds done.length round

def succeeded : Goal α → Bool
  | read found => found.isSome
  | delete thresholds done => thresholds.minimal ≤ done.length

def found? : Goal α → Option (Found α)
  | read found => found
  | delete _ _ => none

end Goal
end ReplicaRing
