import ReplicaRing.Client.Basic

/-! Reads whose outcome is a value, nothing, or one error. Nothing means that no node has the content; an
operation without nodes or with failures only is an error, which names the first failure of the first
node that failed. -/
namespace ReplicaRing

inductive Verb
  | get
  | head
deriving DecidableEq

inductive OperationError
  | noServers (verb : Verb) (key : String)
  | failed (verb : Verb) (key : String) (tried : Nat) (cause : FailureCause)
deriving DecidableEq

def Verb.text : Verb → String
  | get => "GET"
  | head => "HEAD"

def OperationError.message : OperationError → String
  | noServers verb key => s!"No server nodes available for {verb.text} of '{key}'"
  | failed verb key tried cause =>
    s!"Failed to {verb.text} resource '{key}': tried and failed to access {tried} server nodes; first failure due to: {cause.text}"

/-- The value that was found, if any, or an error. -/
def OperationResult.summarize {α : Type} (r : OperationResult α) (verb : Verb) (key : String) :
    Except OperationError (Option α) :=
  if r.candidates = 0 then .error (.noServers verb key)
  else
    let found := r.goal.found?.map (·.value)
    match r.failures with
    | [] => .ok found
    | first :: _ =>
      if r.succeeded then .ok found else .error (.failed verb key r.failures.length first.first.cause)

namespace Client

variable {σ : Type}

/-- The whole content. -/
def content (c : Client) (a : Accessor σ) (key : String) (m : Moment σ) :
    Except OperationError (Option ByteArray) :=
  (c.get a key none m).result.summarize .get key

def contentPart (c : Client) (a : Accessor σ) (key : String) (range : ByteRange) (m : Moment σ) :
    Except OperationError (Option ByteArray) :=
  (c.get a key (some range) m).result.summarize .get key

def contentLength (c : Client) (a : Accessor σ) (key : String) (m : Moment σ) :
    Except OperationError (Option UInt64) :=
  (c.head a key m).result.summarize .head key

end Client
end ReplicaRing
