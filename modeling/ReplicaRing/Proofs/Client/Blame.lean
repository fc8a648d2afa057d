import Mathlib.Data.List.Permutation
import ReplicaRing.Proofs.Client.Absence
import ReplicaRing.Proofs.Operation.FirstFailure
import ReplicaRing.Proofs.Routing.Transparency

/-! The failure that a read names. Its error counts the nodes that failed and names the failure that its result lists
first, which is not the earliest one where another node was given up while the first one to fail waited. -/
namespace ReplicaRing

variable {ω α : Type}

/-- The error of a read, in terms of the attempts of its run; and when it names the earliest of all failures. -/
structure Blame (limits : Limits) (verb : Verb) (key : String) (r : Run ω α)
    (reported : Except OperationError (Option α)) : Prop where
  failed : ∀ v k tried cause, reported = .error (.failed v k tried cause) ↔
    v = verb ∧ k = key ∧ r.goal.succeeded = false ∧ tried = r.failing.length ∧
      ∃ a f, r.blamed? limits = some a ∧ a.result = .failure f ∧ f.cause = cause
  earliest : r.blamed? limits = r.earliest? ↔
    ∀ last, r.surrender? limits = some last → r.earliest?.map Attempt.node = some last.node

theorem Operation.run_blame (network : Network ω α) (limits : Limits) (nodes : List NodeAddress) (world : ω)
    (now : Nat) (signal : StopSignal) (verb : Verb) (key : String) :
    let r := run network limits (.read none) nodes world now signal
    Blame limits verb key r (r.result.summarize verb key) := by
  obtain ⟨e, accounted, lined, candidates, ends⟩ :=
    run_lined network limits (.read : Goal.Fresh (.read none)) nodes world now signal
  rw [← ends]
  refine ⟨fun v k tried cause => ?_, lined.blames_earliest_iff⟩
  rw [OperationResult.summarize]
  cases failures : e.run.result.failures with
  | nil =>
    have unblamed : e.run.blamed? limits = none := lined.unblamed failures
    split <;> simp [unblamed]
  | cons f rest =>
    obtain ⟨a, blamed, failure⟩ : ∃ a, e.run.blamed? limits = some a ∧ a.result = .failure f.first :=
      lined.blamed accounted failures
    have distinct : e.run.candidates.Nodup := candidates ▸ ofAddresses_nodup nodes
    have count : (f :: rest).length = e.run.failing.length := by
      simpa [failures] using (accounted.failing_perm distinct).length_eq
    have some : e.run.result.candidates ≠ 0 := by
      obtain ⟨b, made, here⟩ := accounted.asked_of_failed (f := f) (by simp [failures])
      have asked := (accounted.covers f.node).mpr (.inr ?_)
      · exact Nat.ne_of_gt (List.length_pos_of_mem asked)
      · simpa [Run.outcomes, Run.attemptsOn, here] using ⟨b, made, here⟩
    have succeeded : e.run.result.succeeded = e.run.goal.succeeded := rfl
    have named : (∃ b g, e.run.blamed? limits = Option.some b ∧ b.result = .failure g ∧ g.cause = cause) ↔
        f.first.cause = cause := by simp [blamed, failure]
    rw [if_neg some, named]
    simp only [succeeded, count]
    cases e.run.goal.succeeded <;> simp [eq_comm]

namespace RoutingTable

theorem lookup_nodup (space : KeySpace) (events : List Event) (hash : KeyHash) :
    ((replay space events).lookup hash).1.nodes.Nodup := by
  rw [lookup_eq]
  obtain ⟨chosen, made, preference⟩ := computeRoute_preference (servedFor space events hash) (replay_listed space events)
  rw [made]
  exact preference.once

end RoutingTable

namespace Client

variable {σ : Type}

theorem operate_eq (c : Client) (limits : Limits) (goal : Goal α) (key : String) (call : Primitive σ α)
    (m : Moment σ) : c.operate limits goal key call m =
      Operation.run ⟨m.timers, fun world => world.table.isDisabled, call⟩ limits goal
        (c.table.lookup (c.table.hashKey key)).1.nodes ⟨(c.table.lookup (c.table.hashKey key)).2, m.outside⟩ m.now
        (if c.stopped then some m.now else m.signal) := rfl

/-- The nodes that fail an operation of a client have each an address of their own. -/
theorem operate_failing_nodup {space : KeySpace} {events : List RoutingTable.Event} (c : Client)
    (made : c.table = .replay space events) (limits : Limits) {goal : Goal α} (fresh : goal.Fresh) (key : String)
    (call : Primitive σ α) (m : Moment σ) :
    ((c.operate limits goal key call m).failing.map Candidate.address).Nodup := by
  let route := (c.table.lookup (c.table.hashKey key)).1
  obtain ⟨e, _, _, candidates, ends⟩ := Operation.run_lined ⟨m.timers, fun world => world.table.isDisabled, call⟩
    limits fresh route.nodes ⟨(c.table.lookup (c.table.hashKey key)).2, m.outside⟩ m.now
    (if c.stopped then some m.now else m.signal)
  have listed : (c.operate limits goal key call m).candidates = Candidate.ofAddresses route.nodes := by
    rw [operate_eq, ← ends]
    exact candidates
  have once : route.nodes.Nodup := by
    simp only [route, made]
    exact RoutingTable.lookup_nodup space events _
  have distinct : ((Candidate.ofAddresses route.nodes).map Candidate.address).Nodup := by
    rw [ofAddresses_addresses]
    exact once
  rw [Run.failing, listed]
  exact distinct.sublist (List.filter_sublist.map _)

/-- Whom reads blame. Each of the three reads that failed counts the nodes that failed at last, which are as many
addresses, and names what came of the first attempt on the node that was given up first, or if none was given up, of
the earliest attempt on any of those nodes; so it names the earliest failure that its result has just if no other node
was given up before the one that failed first. -/
theorem blame (c : Client) (a : Accessor σ) (key : String) (range : ByteRange) (m : Moment σ) :
    Blame c.config.limitsForReads .get key (c.get a key none m) (c.content a key m) ∧
    Blame c.config.limitsForReads .get key (c.get a key (some range) m) (c.contentPart a key range m) ∧
    Blame c.config.limitsForReads .head key (c.head a key m) (c.contentLength a key m) ∧
    ∀ space events, c.table = .replay space events →
      ((c.get a key none m).failing.map Candidate.address).Nodup ∧
      ((c.get a key (some range) m).failing.map Candidate.address).Nodup ∧
      ((c.head a key m).failing.map Candidate.address).Nodup :=
  ⟨Operation.run_blame .., Operation.run_blame .., Operation.run_blame .., fun _ _ made =>
    ⟨c.operate_failing_nodup made _ .read .., c.operate_failing_nodup made _ .read ..,
      c.operate_failing_nodup made _ .read ..⟩⟩

/-- Two nodes that serve all keys each; the second one may be disabled. -/
def twoServers (disabled : Bool) : RoutingTable :=
  let state (port : UInt16) (disabled : Bool) : NodeState :=
    ⟨⟨"10.0.0.1", port⟩, none, KeySpace.standard.fullRange, KeySpace.standard.fullRange, disabled, 10⟩
  let report (s : NodeState) : RoutingTable.Event := .direct s.address s 1 2 50
  .replay .standard [report (state 1 false), report (state 2 disabled)]

theorem default_valid : ({} : ClientConfig).validate = .ok () := rfl

def twoNodes (config : ClientConfig) (valid : config.validate = .ok ()) (disabled : Bool) : Client :=
  ⟨config, twoServers disabled, false, valid⟩

/-- The first node cannot be reached, which may pass; the second one always refuses. -/
def unreachable : Accessor Unit :=
  let reply {α : Type} : Primitive Unit α := fun world context =>
    let cause : FailureCause := if context.address.port = 1 then .transport "oops" else .server 503 "oops"
    ⟨world, 0, world, false, some (.failure (context.failure context.started cause))⟩
  ⟨fun _ _ => reply, fun _ => reply, fun _ => reply, fun _ _ _ _ => reply, fun _ => reply⟩

/-- The table comes about by reports, so the nodes that fail are as many addresses. -/
theorem two_addresses_blamed :
    let c := twoNodes {} default_valid false
    (∃ events, c.table = .replay .standard events) ∧
      ((c.get unreachable "a" none ⟨.prompt, (), 0, none⟩).failing.map Candidate.address).Nodup := by
  intro c
  obtain ⟨-, -, -, distinct⟩ := blame c unreachable "a" ⟨0, 1, by decide⟩ ⟨.prompt, (), 0, none⟩
  exact ⟨⟨_, rfl⟩, (distinct .standard _ rfl).1⟩

theorem twoNodes_operate (config : ClientConfig) (valid : config.validate = .ok ()) (disabled : Bool)
    (limits : Limits) (goal : Goal α) (call : Primitive σ α) (m : Moment σ) :
    (twoNodes config valid disabled).operate limits goal "a" call m =
      Operation.run ⟨m.timers, fun world => world.table.isDisabled, call⟩ limits goal
        [⟨"10.0.0.1", 1⟩, ⟨"10.0.0.1", 2⟩]
        ⟨((twoServers disabled).lookup ((twoServers disabled).hashKey "a")).2, m.outside⟩ m.now m.signal := by
  have hash : (twoServers disabled).hashKey "a" = ⟨9597751446455109207, 207⟩ := by
    cases disabled <;> decide +kernel
  have route : ((twoServers disabled).lookup ⟨9597751446455109207, 207⟩).1.nodes =
      [⟨"10.0.0.1", 1⟩, ⟨"10.0.0.1", 2⟩] := by
    cases disabled <;> cbv
  rw [operate_eq, twoNodes, hash, route]
  rfl

/-- The first node fails before the second one, and the error names the failure of the second one. -/
theorem later_failure_named :
    let c := twoNodes {} default_valid false
    let m : Moment Unit := ⟨.prompt, (), 0, none⟩
    let r := c.get unreachable "a" none m
    let causes := r.attempts.map fun attempt => attempt.result.failure?.map CallFailure.cause
    c.content unreachable "a" m = .error (.failed .get "a" 2 (.server 503 "oops")) ∧
      causes = [some (.transport "oops"), some (.server 503 "oops"), some (.transport "oops"),
        some (.transport "oops"), some (.transport "oops"), some (.transport "oops")] ∧
      r.earliest?.bind (·.result.failure?.map CallFailure.cause) = some (.transport "oops") := by
  intro c m r causes
  simp only [causes, r, c, content, get, twoNodes_operate]
  decide +kernel

end Client
end ReplicaRing
