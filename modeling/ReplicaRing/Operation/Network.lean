import ReplicaRing.Call.Context
import ReplicaRing.Operation.Timer

/-! What lies outside an operation: nodes that answer calls in their own time, timers, and a signal that
stops everything. All are data, so a run is a function of them. -/
namespace ReplicaRing

/-- What comes of a call: `accepted` is the world once the call is under way, `done` the world when the
node acts, `delay` later. The node may stop the operation as it acts, and may never reply. -/
structure Answer (ω α : Type) where
  accepted : ω
  delay : Nat
  done : ω
  stops : Bool
  reply : Option (CallResult α)

/-- Nodes in a world, and the timers that bound their calls. A flag may change while an operation
runs. -/
structure Network (ω α : Type) where
  timers : Timers
  isDisabled : ω → NodeAddress → Bool
  call : ω → CallContext → Answer ω α

/-- The time at which everything is stopped, if it ever is. -/
abbrev StopSignal := Option Nat

namespace StopSignal

/-- The signal has come by the time. -/
def cameBy (signal : StopSignal) (time : Nat) : Bool := signal.any (· ≤ time)

end StopSignal

/-- How a call ended, and in what world. -/
structure Ending (ω α : Type) where
  ended : Nat
  world : ω
  signal : StopSignal
  result : CallResult α

namespace Ending

variable {ω α : Type}

/-- A call that is left without a reply ends with the signal or, at the latest, as its timer rings. -/
def withoutReply (timers : Timers) (context : CallContext) (world : ω) (signal : StopSignal) : Ending ω α :=
  let expiry := timers.ring context.deadline
  let fail (time : Nat) (cause : FailureCause) : Ending ω α :=
    ⟨time, world, signal, .failure (context.failure time cause)⟩
  match signal.filter (· ≤ expiry) with
  | some time => fail (max context.started time) .interrupted
  | none => fail expiry .timeout

/-- Waits for the answer. A reply at the last moment counts, unless the signal comes at that moment.
A node that stops the operation with its call's last moment and is silent has run out of time. -/
def ofAnswer (timers : Timers) (context : CallContext) (signal : StopSignal) (answer : Answer ω α) :
    Ending ω α :=
  let due := context.started + answer.delay
  let expiry := timers.ring context.deadline
  if expiry < due ∨ signal.cameBy due then withoutReply timers context answer.accepted signal
  else
    let signal := if answer.stops then some due else signal
    match answer.reply with
    | some result => ⟨due, answer.done, signal, result⟩
    | none =>
      if due = expiry then
        ⟨due, answer.done, signal, .failure (context.failure due .timeout)⟩
      else withoutReply timers context answer.done signal

end Ending
end ReplicaRing
