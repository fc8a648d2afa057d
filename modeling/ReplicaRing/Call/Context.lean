import ReplicaRing.Call.Failure

/-! One call to one node: what it is given and how it can end. -/
namespace ReplicaRing

/-- `allotted` is the time the call may take. -/
structure CallContext where
  address : NodeAddress
  started : Nat
  allotted : Nat
  excerptLength : Nat
deriving DecidableEq

inductive CallResult (α : Type)
  | success (value : α)
  | missing
  | failure (f : CallFailure)

namespace CallContext

def deadline (c : CallContext) : Nat := c.started + c.allotted

def failure (c : CallContext) (now : Nat) (cause : FailureCause) : CallFailure :=
  ⟨c.address, c.started, now, cause⟩

/-- The beginning of a body, marked if something was cut off. -/
def excerpt (c : CallContext) (body : String) : String :=
  let characters := body.toList
  if c.excerptLength < characters.length then String.ofList (characters.take c.excerptLength) ++ "[...]"
  else body

def serverFailure (c : CallContext) (now : Nat) (status : UInt16) (body : String) : CallFailure :=
  c.failure now (.server status (c.excerpt body))

end CallContext

namespace CallResult

variable {α : Type}

/-- The node answered, with the content or without having it. -/
def succeeded : CallResult α → Bool
  | success _ | missing => true
  | failure _ => false

def failure? : CallResult α → Option CallFailure
  | failure f => some f
  | _ => none

end CallResult
end ReplicaRing
