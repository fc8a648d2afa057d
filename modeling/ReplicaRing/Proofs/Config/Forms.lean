import ReplicaRing.Config.Json
import ReplicaRing.Proofs.Duration.Writing
import ReplicaRing.Proofs.Json.Forms

/-! Written forms of configurations. A field that is left out has its default; all others have the value that is given
for them. Every configuration is read back from what is written of it. -/
namespace ReplicaRing

/-- A field that may be left out, and then has its default. -/
def Json.Defaults {α : Type} (members : List (String × Json)) (name : String) (Denotes : Json → α → Prop)
    (default a : α) : Prop :=
  (∃ j, Gives members name j ∧ Denotes j a) ∨ Lacks members name ∧ a = default

section Fields

variable {α : Type} {members : List (String × Json)} {names : List String} {name : String} {Denotes : Json → α → Prop}
  {default a : α}

theorem Json.defaults_filter (known : name ∈ names) :
    Json.Defaults (members.filter (·.1 ∈ names)) name Denotes default a ↔
      Json.Defaults members name Denotes default a := by
  simp only [Json.Defaults, Json.gives_filter known, Json.lacks_filter known]

theorem Json.Record.readOr_defaults {r : Json.Record} {decode : Json.Decoder α}
    (accepts : ∀ {j a}, decode j = .ok a ↔ Denotes j a) :
    (r.readOr name decode default).result = .ok a ↔ Json.Defaults r.members name Denotes default a := by
  simp only [Json.Record.readOr_result, Json.Defaults, accepts]

theorem Json.Defaults.given {j : Json} (gives : Json.Gives members name j) (denotes : Denotes j a) :
    Json.Defaults members name Denotes default a :=
  .inl ⟨j, gives, denotes⟩

end Fields

/-! ## Durations -/

namespace Duration

def Denotes (j : Json) (d : Duration) : Prop := ∃ text, j = .text text ∧ StandsFor text d

def Sound (d : Duration) : Prop := d.seconds < Nat.pow 2 64 ∧ d.subsecond < nanosPerSecond

theorem sound (d : Duration) : d.Sound :=
  ⟨(Nat.div_lt_iff_lt_mul (by decide)).mpr d.inRange, Nat.mod_lt _ (by decide)⟩

theorem exists_of_sound {seconds nanos : Nat} (small : seconds < Nat.pow 2 64) (less : nanos < nanosPerSecond) :
    ∃ d : Duration, d.seconds = seconds ∧ d.subsecond = nanos :=
  ⟨⟨_, seconds_lt small less⟩, (Nat.div_mod_unique (by decide)).mpr ⟨by rw [Nat.mul_comm, Nat.add_comm], less⟩⟩

theorem ofJson_eq_ok_iff {j : Json} {d : Duration} : ofJson j = .ok d ↔ Denotes j d := by
  cases j with
  | text text =>
    simp only [ofJson, Json.asText, bind, Except.bind, Denotes, Json.text.injEq, exists_eq_left', ← ofText?_eq_some_iff]
    split <;> simp [*]
  | null | bool | int | fraction | list | object => simp [ofJson, Json.asText, bind, Except.bind, Denotes]

theorem toJson_denotes (d : Duration) : Denotes d.toJson d := ⟨d.text, rfl, d.text_standsFor⟩

theorem decodes : Json.Decodes ofJson toJson [] Denotes Sound :=
  .of_denotes ofJson_eq_ok_iff (fun {_ d} _ => d.sound) (fun {d} _ => d.toJson_denotes) (by simp [Denotes])

end Duration

/-! ## Calls -/

namespace CallConfig

def fields : List String :=
  ["get_call_timeout", "delete_call_timeout", "list_call_timeout", "minimum_timeout", "max_excerpt_length"]

def Denotes (j : Json) (c : CallConfig) : Prop :=
  let default : CallConfig := {}
  ∃ members, Json.Lists fields j members ∧
    Json.Defaults members "get_call_timeout" Duration.Denotes default.getTimeout c.getTimeout ∧
    Json.Defaults members "delete_call_timeout" Duration.Denotes default.deleteTimeout c.deleteTimeout ∧
    Json.Defaults members "list_call_timeout" Duration.Denotes default.listTimeout c.listTimeout ∧
    Json.Defaults members "minimum_timeout" Duration.Denotes default.minimumTimeout c.minimumTimeout ∧
    Json.Defaults members "max_excerpt_length" (fun j n => j = .word n) default.excerptLength c.excerptLength

def Sound (c : CallConfig) : Prop := (∀ d ∈ c.timeouts, d.Sound) ∧ c.minimumTimeout.Sound

theorem sound (c : CallConfig) : c.Sound := ⟨fun d _ => d.sound, c.minimumTimeout.sound⟩

theorem ofJson_eq_ok_iff {j : Json} {c : CallConfig} : ofJson j = .ok c ↔ Denotes j c := by
  rw [ofJson]
  apply Json.record_eq_ok_iff
  intro r _
  obtain ⟨getTimeout, deleteTimeout, listTimeout, minimumTimeout, excerptLength⟩ := c
  simp only [Json.Reading.seq_result, Json.Reading.map_result, Json.Record.readOr_defaults Duration.ofJson_eq_ok_iff,
    Json.Record.readOr_defaults Json.asUInt64_eq_ok_iff, CallConfig.mk.injEq, ↓existsAndEq, and_true, and_assoc]

theorem toJson_denotes (c : CallConfig) : Denotes c.toJson c :=
  ⟨_, .object _, .given (by simp [Json.Gives]) c.getTimeout.toJson_denotes,
    .given (by simp [Json.Gives]) c.deleteTimeout.toJson_denotes,
    .given (by simp [Json.Gives]) c.listTimeout.toJson_denotes,
    .given (by simp [Json.Gives]) c.minimumTimeout.toJson_denotes, .given (by simp [Json.Gives]) rfl⟩

theorem decodes : Json.Decodes ofJson toJson fields Denotes Sound :=
  .of_denotes ofJson_eq_ok_iff (fun {_ c} _ => c.sound) (fun {c} _ => c.toJson_denotes) (by
    simp (disch := decide) only [Denotes, Json.lists_object, exists_eq_left, Json.defaults_filter, implies_true])

end CallConfig

/-! ## Operations -/

namespace OperationConfig

def fields : List String :=
  ["get_operation_timeout", "delete_operation_timeout", "allow_retries", "retry_delay", "max_get_retry_rounds",
   "max_delete_retry_rounds", "minimal_oks", "optimal_oks", "maximal_oks"]

def Denotes (j : Json) (c : OperationConfig) : Prop :=
  let default : OperationConfig := {}
  ∃ members, Json.Lists fields j members ∧
    Json.Defaults members "get_operation_timeout" Duration.Denotes default.getTimeout c.getTimeout ∧
    Json.Defaults members "delete_operation_timeout" Duration.Denotes default.deleteTimeout c.deleteTimeout ∧
    Json.Defaults members "allow_retries" (fun j b => j = .bool b) default.allowRetries c.allowRetries ∧
    Json.Defaults members "retry_delay" Duration.Denotes default.retryDelay c.retryDelay ∧
    Json.Defaults members "max_get_retry_rounds" (fun j n => j = .nat n.toNat) default.getRetryRounds c.getRetryRounds ∧
    Json.Defaults members "max_delete_retry_rounds" (fun j n => j = .nat n.toNat) default.deleteRetryRounds
      c.deleteRetryRounds ∧
    Json.Defaults members "minimal_oks" (fun j n => j = .word n) default.minimalOks c.minimalOks ∧
    Json.Defaults members "optimal_oks" (fun j n => j = .word n) default.optimalOks c.optimalOks ∧
    Json.Defaults members "maximal_oks" (fun j n => j = .word n) default.maximalOks c.maximalOks

def Sound (c : OperationConfig) : Prop := c.getTimeout.Sound ∧ c.deleteTimeout.Sound ∧ c.retryDelay.Sound

theorem sound (c : OperationConfig) : c.Sound := ⟨c.getTimeout.sound, c.deleteTimeout.sound, c.retryDelay.sound⟩

theorem ofJson_eq_ok_iff {j : Json} {c : OperationConfig} : ofJson j = .ok c ↔ Denotes j c := by
  rw [ofJson]
  apply Json.record_eq_ok_iff
  intro r _
  obtain ⟨getTimeout, deleteTimeout, allowRetries, retryDelay, getRetryRounds, deleteRetryRounds, minimalOks,
    optimalOks, maximalOks⟩ := c
  simp only [Json.Reading.seq_result, Json.Reading.map_result, Json.Record.readOr_defaults Duration.ofJson_eq_ok_iff,
    Json.Record.readOr_defaults Json.asBool_eq_ok_iff, Json.Record.readOr_defaults Json.asUInt32_eq_ok_iff,
    Json.Record.readOr_defaults Json.asUInt64_eq_ok_iff, OperationConfig.mk.injEq, ↓existsAndEq, and_true, and_assoc]

theorem toJson_denotes (c : OperationConfig) : Denotes c.toJson c :=
  ⟨_, .object _, .given (by simp [Json.Gives]) c.getTimeout.toJson_denotes,
    .given (by simp [Json.Gives]) c.deleteTimeout.toJson_denotes, .given (by simp [Json.Gives]) rfl,
    .given (by simp [Json.Gives]) c.retryDelay.toJson_denotes, .given (by simp [Json.Gives]) rfl,
    .given (by simp [Json.Gives]) rfl, .given (by simp [Json.Gives]) rfl, .given (by simp [Json.Gives]) rfl,
    .given (by simp [Json.Gives]) rfl⟩

theorem decodes : Json.Decodes ofJson toJson fields Denotes Sound :=
  .of_denotes ofJson_eq_ok_iff (fun {_ c} _ => c.sound) (fun {c} _ => c.toJson_denotes) (by
    simp (disch := decide) only [Denotes, Json.lists_object, exists_eq_left, Json.defaults_filter, implies_true])

end OperationConfig

/-! ## Clients -/

namespace ClientConfig

def fields : List String := ["keyspace", "call", "operation"]

def Denotes (j : Json) (c : ClientConfig) : Prop :=
  ∃ members, Json.Lists fields j members ∧
    Json.Defaults members "keyspace" KeySpace.Denotes .standard c.space ∧
    Json.Defaults members "call" CallConfig.Denotes {} c.call ∧
    Json.Defaults members "operation" OperationConfig.Denotes {} c.operation

def Sound (c : ClientConfig) : Prop := c.space.Sound ∧ c.call.Sound ∧ c.operation.Sound

theorem sound (c : ClientConfig) : c.Sound := ⟨c.space.sound, c.call.sound, c.operation.sound⟩

theorem ofJson_eq_ok_iff {j : Json} {c : ClientConfig} : ofJson j = .ok c ↔ Denotes j c := by
  rw [ofJson]
  apply Json.record_eq_ok_iff
  intro r _
  obtain ⟨space, call, operation⟩ := c
  simp only [Json.Reading.seq_result, Json.Reading.map_result, Json.Record.readOr_defaults KeySpace.ofJson_eq_ok_iff,
    Json.Record.readOr_defaults CallConfig.ofJson_eq_ok_iff,
    Json.Record.readOr_defaults OperationConfig.ofJson_eq_ok_iff, ClientConfig.mk.injEq, ↓existsAndEq, and_true, and_assoc]

theorem toJson_denotes (c : ClientConfig) : Denotes c.toJson c :=
  have space : KeySpace.Denotes c.space.toJson c.space := rfl
  ⟨_, .object _, .given (by simp [Json.Gives]) space, .given (by simp [Json.Gives]) c.call.toJson_denotes,
    .given (by simp [Json.Gives]) c.operation.toJson_denotes⟩

theorem decodes : Json.Decodes ofJson toJson fields Denotes Sound :=
  .of_denotes ofJson_eq_ok_iff (fun {_ c} _ => c.sound) (fun {c} _ => c.toJson_denotes) (by
    simp (disch := decide) only [Denotes, Json.lists_object, exists_eq_left, Json.defaults_filter, implies_true])

/-- Every configuration is read back from what is written of it, and so is every one that decodes from something else,
with any of its fields left out. Durations are written as sums of denominations, and the texts that stand for durations
are the ones that are read. Times are any seconds that fit a word, with any part of a second. -/
theorem configurations_read_back :
    (∀ c : ClientConfig, ofJson c.toJson = .ok c) ∧
    Json.Decodes CallConfig.ofJson CallConfig.toJson CallConfig.fields CallConfig.Denotes CallConfig.Sound ∧
    Json.Decodes OperationConfig.ofJson OperationConfig.toJson OperationConfig.fields OperationConfig.Denotes
      OperationConfig.Sound ∧
    Json.Decodes ofJson toJson fields Denotes Sound ∧
    Json.Decodes Duration.ofJson Duration.toJson [] Duration.Denotes Duration.Sound ∧
    (∀ text d, Duration.Written text d ↔ text = Duration.text d) ∧
    (∀ text d, Duration.ofText? text = some d ↔ Duration.StandsFor text d) ∧
    (∀ seconds nanos, seconds < Nat.pow 2 64 → nanos < nanosPerSecond →
      ∃ d : Duration, d.seconds = seconds ∧ d.subsecond = nanos) ∧
    ∀ length, 1 ≤ length → length ≤ 2147483647 → ∃ space : KeySpace, space.length = length := by
  refine ⟨fun c => ?_, CallConfig.decodes, OperationConfig.decodes, decodes, Duration.decodes,
    fun _ _ => Duration.written_iff, fun _ _ => Duration.ofText?_eq_some_iff,
    fun _ _ => Duration.exists_of_sound, fun length pos fits => ⟨⟨length, pos, fits⟩, rfl⟩⟩
  exact ofJson_eq_ok_iff.mpr c.toJson_denotes

def oddTimes : ClientConfig where
  call.getTimeout := ⟨36907693001001001, by decide⟩
  call.listTimeout := .ofMillis 0
  operation.retryDelay := ⟨7200000000007, by decide⟩

theorem odd_times_read_back :
    ofJson oddTimes.toJson = .ok oddTimes ∧
    (∃ d : Duration, d.seconds = 18446744073709551615 ∧ d.subsecond = 999999999) ∧
    Duration.Written "1year 2months 1day 1h 1m 1s 1ms 1us 1ns" oddTimes.call.getTimeout ∧
    Duration.StandsFor " 2 h7ns " oddTimes.operation.retryDelay := by
  obtain ⟨read_back, -, -, -, -, written, read, durations, -⟩ := configurations_read_back
  exact ⟨read_back oddTimes, durations _ _ (by decide) (by decide), (written _ _).mpr (by decide),
    (read _ _).mp (by decide)⟩

end ClientConfig

end ReplicaRing
