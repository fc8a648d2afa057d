import ReplicaRing.Node.Address

/-! Failed calls: why a call failed, and all that failed at one node. Times are nanoseconds. -/
namespace ReplicaRing

inductive FailureCause
  | timeout
  | transport (message : String)
  | server (status : UInt16) (excerpt : String)
  | internal (message : String)
  | interrupted
deriving DecidableEq

structure CallFailure where
  address : NodeAddress
  started : Nat
  ended : Nat
  cause : FailureCause
deriving DecidableEq

/-- A node of an operation, at its position in the list of those to ask. -/
structure Candidate where
  position : Nat
  address : NodeAddress
deriving DecidableEq

/-- The failed calls to one candidate, in order; there is at least one. -/
structure NodeFailure where
  node : Candidate
  first : CallFailure
  later : List CallFailure
deriving DecidableEq

namespace FailureCause

/-- The condition may pass, so the node may be tried again. -/
def isRetriable : FailureCause → Bool
  | timeout | transport _ => true
  | server _ _ | internal _ | interrupted => false

def text : FailureCause → String
  | timeout => "timed out"
  | transport message => s!"transport failure: {message}"
  | server status excerpt => s!"server failure (status {status.toNat}): {excerpt}"
  | internal message => s!"internal failure: {message}"
  | interrupted => "interrupted"

def status? : FailureCause → Option UInt16
  | server status _ => some status
  | _ => none

end FailureCause

namespace CallFailure

def duration (f : CallFailure) : Nat := f.ended - f.started

def isRetriable (f : CallFailure) : Bool := f.cause.isRetriable

def text (f : CallFailure) : String :=
  s!"call to {f.address.text} failed after {f.duration / nanosPerMilli} msecs: {f.cause.text}"

end CallFailure

namespace NodeFailure

def ofCall (node : Candidate) (f : CallFailure) : NodeFailure := ⟨node, f, []⟩

def add (n : NodeFailure) (f : CallFailure) : NodeFailure := { n with later := n.later ++ [f] }

def calls (n : NodeFailure) : List CallFailure := n.first :: n.later

def last (n : NodeFailure) : CallFailure := n.calls.getLast (by simp [calls])

/-- The latest failure decides. -/
def isRetriable (n : NodeFailure) : Bool := n.last.isRetriable

@[simp] theorem calls_add (n : NodeFailure) (f : CallFailure) : (n.add f).calls = n.calls ++ [f] := rfl

theorem getLast?_calls (n : NodeFailure) : n.calls.getLast? = some n.last :=
  List.getLast?_eq_some_getLast _

@[simp] theorem last_ofCall (node : Candidate) (f : CallFailure) : (ofCall node f).last = f := rfl

@[simp] theorem last_add (n : NodeFailure) (f : CallFailure) : (n.add f).last = f :=
  Option.some.inj (by rw [← getLast?_calls, calls_add, List.getLast?_concat])

def text (n : NodeFailure) : String :=
  s!"{n.node.address.text} ({n.calls.length} failures, first: {n.first.cause.text})"

end NodeFailure
end ReplicaRing
