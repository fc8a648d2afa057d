import ReplicaRing.Config.Basic

/-! Configurations put together step by step, from the defaults. The result is to be validated at the
end; only the length of the key space is checked at its own step. -/
namespace ReplicaRing

inductive Adjustment
  | keySpaceLength (length : Nat)
  | callConfig (call : CallConfig)
  | operationConfig (operation : OperationConfig)
  | callTimeouts (get delete list : Duration)
  | minimumTimeout (timeout : Duration)
  | operationTimeouts (get delete : Duration)
  | retries (allow : Bool)
  | retryDelay (delay : Duration)
  | retryRounds (get delete : UInt32)
  | deleteThresholds (minimal optimal maximal : UInt64)

namespace ClientConfig

def adjust (c : ClientConfig) : Adjustment → Except ArgumentError ClientConfig
  | .keySpaceLength length => do return { c with space := ← KeySpace.ofLength length }
  | .callConfig call => .ok { c with call }
  | .operationConfig operation => .ok { c with operation }
  | .callTimeouts getTimeout deleteTimeout listTimeout =>
    .ok { c with call := { c.call with getTimeout, deleteTimeout, listTimeout } }
  | .minimumTimeout minimumTimeout => .ok { c with call := { c.call with minimumTimeout } }
  | .operationTimeouts getTimeout deleteTimeout =>
    .ok { c with operation := { c.operation with getTimeout, deleteTimeout } }
  | .retries allowRetries => .ok { c with operation := { c.operation with allowRetries } }
  | .retryDelay retryDelay => .ok { c with operation := { c.operation with retryDelay } }
  | .retryRounds getRetryRounds deleteRetryRounds =>
    .ok { c with operation := { c.operation with getRetryRounds, deleteRetryRounds } }
  | .deleteThresholds minimalOks optimalOks maximalOks =>
    .ok { c with operation := { c.operation with minimalOks, optimalOks, maximalOks } }

end ClientConfig
end ReplicaRing
