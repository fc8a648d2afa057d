import ReplicaRing.KeySpace.Basic
import ReplicaRing.Operation.Goal

/-! Settings of a client. A configuration may hold anything its types allow; `validate` says whether
its parts fit together. -/
namespace ReplicaRing

/-- Settings of single calls. Reads other than listings share one timeout. -/
structure CallConfig where
  getTimeout : Duration := .ofMillis 3000
  deleteTimeout : Duration := .ofMillis 3000
  listTimeout : Duration := .ofMillis 5000
  minimumTimeout : Duration := .ofMillis 10
  excerptLength : UInt64 := 500
deriving DecidableEq

/-- Settings of operations over several nodes. Reads, listings included, share one budget. -/
structure OperationConfig where
  getTimeout : Duration := .ofMillis 10000
  deleteTimeout : Duration := .ofMillis 10000
  allowRetries : Bool := true
  retryDelay : Duration := .ofMillis 250
  getRetryRounds : UInt32 := 3
  deleteRetryRounds : UInt32 := 3
  minimalOks : UInt64 := 1
  optimalOks : UInt64 := 2
  maximalOks : UInt64 := 3
deriving DecidableEq

structure ClientConfig where
  space : KeySpace := .standard
  call : CallConfig := {}
  operation : OperationConfig := {}
deriving DecidableEq

namespace OperationConfig

def thresholds (c : OperationConfig) : Thresholds :=
  ⟨c.minimalOks.toNat, c.optimalOks.toNat, c.maximalOks.toNat⟩

end OperationConfig

namespace CallConfig

/-- Timeouts of the kinds of calls. -/
def timeouts (c : CallConfig) : List Duration := [c.getTimeout, c.deleteTimeout, c.listTimeout]

end CallConfig

namespace ClientConfig

/-- The first fault, if there is one. -/
def validate (c : ClientConfig) : Except ConfigError Unit :=
  let t := c.operation.thresholds
  if t.minimal = 0 then .error .noMinimalOks
  else if t.optimal < t.minimal ∨ t.maximal < t.optimal then
    .error (.thresholds t.minimal t.optimal t.maximal)
  else if c.call.timeouts.any (·.nanos < c.call.minimumTimeout.nanos) then
    .error (.minimumTimeout c.call.minimumTimeout)
  else .ok ()

/-- Limits of an operation whose calls may take `callTimeout` each. -/
def readLimits (c : ClientConfig) (callTimeout : Duration) : Limits where
  operationTimeout := c.operation.getTimeout.nanos
  callTimeout := callTimeout.nanos
  minimumTimeout := c.call.minimumTimeout.nanos
  retryDelay := c.operation.retryDelay.nanos
  allowRetries := c.operation.allowRetries
  maxRetryRounds := c.operation.getRetryRounds.toNat
  excerptLength := c.call.excerptLength.toNat

def limitsForReads (c : ClientConfig) : Limits := c.readLimits c.call.getTimeout

def limitsForListing (c : ClientConfig) : Limits := c.readLimits c.call.listTimeout

def limitsForDeletes (c : ClientConfig) : Limits :=
  { c.readLimits c.call.deleteTimeout with
    operationTimeout := c.operation.deleteTimeout.nanos
    maxRetryRounds := c.operation.deleteRetryRounds.toNat }

end ClientConfig
end ReplicaRing
