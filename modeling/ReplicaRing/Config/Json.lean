import ReplicaRing.Config.Basic
import ReplicaRing.Duration.Reader
import ReplicaRing.KeySpace.Text

/-! JSON forms of configurations. Every member may be left out and then has its default; durations are
texts. -/
namespace ReplicaRing

namespace Duration

def toJson (d : Duration) : Json := .text d.text

def ofJson : Json.Decoder Duration := fun j => do
  match ofText? (← Json.asText j) with
  | some d => .ok d
  | none => .error .shape

end Duration

namespace CallConfig

def toJson (c : CallConfig) : Json :=
  .object
    [("get_call_timeout", c.getTimeout.toJson), ("delete_call_timeout", c.deleteTimeout.toJson),
     ("list_call_timeout", c.listTimeout.toJson), ("minimum_timeout", c.minimumTimeout.toJson),
     ("max_excerpt_length", .word c.excerptLength)]

def ofJson : Json.Decoder CallConfig := fun j => do
  let record ← Json.asRecord
    ["get_call_timeout", "delete_call_timeout", "list_call_timeout", "minimum_timeout",
     "max_excerpt_length"] j
  let default : CallConfig := {}
  record.close
    (CallConfig.mk <$> record.readOr "get_call_timeout" Duration.ofJson default.getTimeout
      <*> record.readOr "delete_call_timeout" Duration.ofJson default.deleteTimeout
      <*> record.readOr "list_call_timeout" Duration.ofJson default.listTimeout
      <*> record.readOr "minimum_timeout" Duration.ofJson default.minimumTimeout
      <*> record.readOr "max_excerpt_length" Json.asUInt64 default.excerptLength)

end CallConfig

namespace OperationConfig

def toJson (c : OperationConfig) : Json :=
  .object
    [("get_operation_timeout", c.getTimeout.toJson),
     ("delete_operation_timeout", c.deleteTimeout.toJson), ("allow_retries", .bool c.allowRetries),
     ("retry_delay", c.retryDelay.toJson), ("max_get_retry_rounds", .nat c.getRetryRounds.toNat),
     ("max_delete_retry_rounds", .nat c.deleteRetryRounds.toNat), ("minimal_oks", .word c.minimalOks),
     ("optimal_oks", .word c.optimalOks), ("maximal_oks", .word c.maximalOks)]

def ofJson : Json.Decoder OperationConfig := fun j => do
  let record ← Json.asRecord
    ["get_operation_timeout", "delete_operation_timeout", "allow_retries", "retry_delay",
     "max_get_retry_rounds", "max_delete_retry_rounds", "minimal_oks", "optimal_oks", "maximal_oks"] j
  let default : OperationConfig := {}
  record.close
    (OperationConfig.mk <$> record.readOr "get_operation_timeout" Duration.ofJson default.getTimeout
      <*> record.readOr "delete_operation_timeout" Duration.ofJson default.deleteTimeout
      <*> record.readOr "allow_retries" Json.asBool default.allowRetries
      <*> record.readOr "retry_delay" Duration.ofJson default.retryDelay
      <*> record.readOr "max_get_retry_rounds" Json.asUInt32 default.getRetryRounds
      <*> record.readOr "max_delete_retry_rounds" Json.asUInt32 default.deleteRetryRounds
      <*> record.readOr "minimal_oks" Json.asUInt64 default.minimalOks
      <*> record.readOr "optimal_oks" Json.asUInt64 default.optimalOks
      <*> record.readOr "maximal_oks" Json.asUInt64 default.maximalOks)

end OperationConfig

namespace ClientConfig

def toJson (c : ClientConfig) : Json :=
  .object
    [("keyspace", c.space.toJson), ("call", c.call.toJson), ("operation", c.operation.toJson)]

def ofJson : Json.Decoder ClientConfig := fun j => do
  let record ← Json.asRecord ["keyspace", "call", "operation"] j
  record.close
    (ClientConfig.mk <$> record.readOr "keyspace" KeySpace.ofJson .standard
      <*> record.readOr "call" CallConfig.ofJson {}
      <*> record.readOr "operation" OperationConfig.ofJson {})

end ClientConfig
end ReplicaRing
