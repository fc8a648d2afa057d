import ReplicaRing.Proofs.Operation.History

/-! Operations that give up. One that is neither stopped nor out of time and misses its goal has asked
every node, and every node that may recover in each of its turns. -/
namespace ReplicaRing

variable {ω α : Type}

/-- No round is over before the goal is reached. -/
def Goal.Patient : Goal α → Prop
  | read _ => True
  | delete thresholds _ =>
    thresholds.minimal ≤ thresholds.optimal ∧ thresholds.minimal ≤ thresholds.maximal

namespace Goal

variable {goal : Goal α}

theorem patient_of_afresh (patient : goal.afresh.Patient) : goal.Patient := by
  cases goal <;> exact patient

theorem Patient.incomplete (patient : goal.Patient) (missed : goal.succeeded = false) (round : Round) :
    goal.isComplete round = false := by
  cases goal with
  | read found => exact missed
  | delete thresholds done =>
    obtain ⟨optimal, maximal⟩ := patient
    simp only [succeeded, decide_eq_false_iff_not, Nat.not_le] at missed
    cases round <;> simp only [isComplete, reached, decide_eq_false_iff_not, Nat.not_le] <;> omega

end Goal

/-- With retries, a node that failed for good is one that may not recover. -/
def Stage.Final (op : Operation ω α) (s : Stage ω α) : Prop :=
  op.limits.allowRetries = true → ∀ f ∈ s.run.failed, f.isRetriable = false

namespace Operation

variable {op : Operation ω α} {s t : Stage ω α}

theorem failed_file (allowed : op.limits.allowRetries = true) (node : Candidate) (result : CallResult α)
    {r : Run ω α} (final : ∀ f ∈ r.failed, f.isRetriable = false) :
    ∀ f ∈ (op.file node result r).failed, f.isRetriable = false := by
  cases result with
  | success value => exact final
  | missing => exact final
  | failure c =>
    simp only [file, allowed, Bool.true_and]
    split
    · exact final
    · rename_i lasting
      intro f member
      rcases List.mem_append.mp member with before | new
      · exact final f before
      · rw [List.mem_singleton.mp new, NodeFailure.isRetriable, NodeFailure.last_ofCall]
        exact Bool.not_eq_true _ ▸ lasting

theorem failed_refile (kept due : List NodeFailure) (node : NodeFailure) (result : CallResult α)
    {r : Run ω α} (final : ∀ f ∈ r.failed, f.isRetriable = false) :
    ∀ f ∈ (refile kept node due result r).2.failed, f.isRetriable = false := by
  cases result with
  | success value => exact final
  | missing => exact final
  | failure c =>
    simp only [refile]
    split
    · exact final
    · rename_i lasting
      intro f member
      rcases List.mem_append.mp member with before | new
      · exact final f before
      · rw [List.mem_singleton.mp new, NodeFailure.isRetriable, NodeFailure.last_add]
        exact Bool.not_eq_true _ ▸ lasting

theorem Step.final (step : op.Step s t) (h : s.Final op) : t.Final op := by
  cases step with
  | leave | leaveAll | retry | disabled | extra => exact h
  | pause may roundStart =>
    intro allowed
    have same := op.pause_eq s.run roundStart
    rw [same]
    exact h allowed
  | first may sweeps => exact fun allowed => failed_file allowed _ _ (by simpa using h allowed)
  | again may retries => exact fun allowed => failed_refile _ _ _ _ (by simpa using h allowed)

end Operation

theorem Stage.Accounted.waits {op : Operation ω α} {s : Stage ω α} (h : s.Accounted) (final : s.Final op)
    (allowed : op.limits.allowRetries = true) {node : Candidate} {c : CallFailure}
    (last : (s.run.outcomes node).getLast? = some (.failure c)) (passes : c.isRetriable = true) :
    ∃ f ∈ s.run.retries, f.node = node := by
  obtain ⟨f, failures, latest⟩ := (h.files node).last_failure last
  have member : f ∈ s.run.result.failuresOf node := by simp [failures]
  obtain ⟨failed, named⟩ := List.mem_filter.mp member
  rcases List.mem_append.mp failed with lost | waiting
  · have lasting := final allowed f lost
    rw [NodeFailure.isRetriable, latest, passes] at lasting
    contradiction
  · exact ⟨f, waiting, of_decide_eq_true named⟩

/-- Why a node is asked no more: it answered, cannot recover, or was asked in each of its turns. -/
inductive Run.Settles (r : Run ω α) (limits : Limits) (node : Candidate) : Prop
  | deleted {thresholds done value} (deletes : r.goal = .delete thresholds done)
      (last : (r.outcomes node).getLast? = some (.success value)) : Settles r limits node
  | missing (last : (r.outcomes node).getLast? = some .missing) : Settles r limits node
  | lost {c} (last : (r.outcomes node).getLast? = some (.failure c)) (final : c.isRetriable = false) :
      Settles r limits node
  | tired {c} (last : (r.outcomes node).getLast? = some (.failure c)) (passes : c.isRetriable = true)
      (turns : (r.rounds node).head? = some .primary ∧ (r.outcomes node).length = 2 + limits.maxRetryRounds ∨
        (r.rounds node).head? = some .disabled ∧ (r.outcomes node).length = 1 + limits.maxRetryRounds) :
      Settles r limits node

namespace Operation

variable {op : Operation ω α} {e : Stage ω α}

/-- An operation that gives up has tried all nodes, and none is left that may be asked again. -/
theorem Ended.exhausted_of (ended : op.Ended e) (going : ∀ round, e.run.isOver round = false)
    (early : e.run.now + op.limits.minimumTimeout < op.deadline) : e.untried = [] ∧
      (op.limits.allowRetries = true →
        e.due = [] ∧ (e.run.retries = [] ∨ op.limits.maxRetryRounds < e.round.turn)) := by
  cases ended with
  | finished finished => simp [going] at finished
  | late late => omega
  | single once => exact ⟨rfl, fun allowed => absurd (once ▸ allowed) Bool.false_ne_true⟩
  | exhausted late nothing => exact ⟨rfl, fun _ => ⟨rfl, nothing⟩⟩

/-- A node that waits when the last turn is over was asked in each of its turns. -/
theorem asked_throughout (paced : e.Paced op) (none : e.due = [])
    (last : e.round.turn = op.limits.maxRetryRounds + 1) {f : NodeFailure} (waits : f ∈ e.run.retries) :
    (e.run.rounds f.node).head? = some .primary ∧
        (e.run.outcomes f.node).length = 2 + op.limits.maxRetryRounds ∨
      (e.run.rounds f.node).head? = some .disabled ∧
        (e.run.outcomes f.node).length = 1 + op.limits.maxRetryRounds := by
  have asked := paced.all_asked none f waits
  rw [last] at asked
  obtain ⟨first, rest, rounds⟩ := List.exists_cons_of_ne_nil (rounds_ne_nil asked)
  have began : (e.run.rounds f.node).head? = some first := by rw [rounds, List.head?_cons]
  have length := outcomes_length asked began
  rcases paced.began f.node first began with rfl | rfl
  · exact .inl ⟨began, by rw [length, Round.turn]; omega⟩
  · exact .inr ⟨began, by rw [length, Round.turn]; omega⟩

/-- The same for all nodes that were asked, whatever came of it. -/
theorem settles_of_asked (accounted : e.Accounted) (paced : e.Paced op) (final : e.Final op)
    (allowed : op.limits.allowRetries = true) (none : e.due = [])
    (nothing : e.run.retries = [] ∨ op.limits.maxRetryRounds < e.round.turn)
    (missed : e.run.result.succeeded = false) {node : Candidate} (asked : e.run.outcomes node ≠ []) :
    e.run.Settles op.limits node := by
  have last := List.getLast?_eq_some_getLast asked
  cases came : (e.run.outcomes node).getLast asked with
  | success value =>
    rw [came] at last
    have files := accounted.files node
    cases kind : e.run.goal with
    | delete thresholds done => exact .deleted kind last
    | read found =>
      generalize e.run.outcomes node = outcomes at files last
      cases files with
      | unasked | missing | failed => simp [List.getLast?_map] at last
      | succeeded counts =>
        simp only [Run.result, kind, Goal.Counts] at counts
        simp [Run.result, OperationResult.succeeded, Goal.succeeded, kind, counts] at missed
  | missing => exact .missing (came ▸ last)
  | failure c =>
    rw [came] at last
    cases passes : c.isRetriable with
    | false => exact .lost last passes
    | true =>
      obtain ⟨f, waits, rfl⟩ := accounted.waits final allowed last passes
      have turn : e.round.turn = op.limits.maxRetryRounds + 1 :=
        Nat.le_antisymm paced.turn_le (nothing.resolve_left (List.ne_nil_of_mem waits))
      exact .tired last passes (asked_throughout paced none turn waits)

/-- An operation gives up only for cause. With nodes enough, unless it is stopped or out of time, one
that misses its goal has asked every node: once without retries, and else until the node answered, could
not recover or had all its turns. -/
theorem run_settles (network : Network ω α) (limits : Limits) {goal : Goal α} (fresh : goal.Fresh)
    (patient : goal.Patient) {nodes : List NodeAddress} (some : nodes ≠ [])
    (enough : goal.minCandidates ≤ nodes.length) (world : ω) (now : Nat) (signal : StopSignal) :
    let r := run network limits goal nodes world now signal
    r.isStopped = false → r.now + limits.minimumTimeout < now + limits.operationTimeout →
    r.result.succeeded = false → ∀ node ∈ Candidate.ofAddresses nodes,
      r.outcomes node ≠ [] ∧ (limits.allowRetries = false → (r.outcomes node).length = 1) ∧
      (limits.allowRetries = true → r.Settles limits node) := by
  intro r running early missed node member
  obtain ⟨e, steps, ended, ends⟩ := run_steps network limits goal nodes world now signal
  obtain ⟨accounted, paced, candidates, kind⟩ := reached_stage fresh steps
  have final := steps.keeps (·.Final _) (fun _ _ => Step.final) (fun _ _ none => nomatch none)
  have run : e.run = r := ends
  rw [← run] at running early missed ⊢
  rw [← candidates] at member
  have going : ∀ round, e.run.isOver round = false := by
    intro round
    have incomplete : e.run.goal.isComplete round = false :=
      (Goal.patient_of_afresh (kind ▸ patient)).incomplete missed round
    rw [Run.isOver, running, incomplete, Bool.or_false]
  obtain ⟨tried, nothing⟩ := (ended some enough).exhausted_of going early
  have asked : e.run.outcomes node ≠ [] := by
    rw [accounted.covers, tried] at member
    exact member.resolve_left List.not_mem_nil
  refine ⟨asked, fun single => ?_, fun allowed => ?_⟩
  · have primary : e.round = .primary := paced.single single
    obtain ⟨first, _, _, length⟩ := (outcomes_bounded paced node).resolve_left asked
    rw [primary] at length
    exact Nat.le_antisymm (Nat.le_trans length (Nat.sub_le _ _)) (List.length_pos_iff.mpr asked)
  · obtain ⟨none, left⟩ := nothing allowed
    exact settles_of_asked accounted paced final allowed none left missed asked

/-- A node that always fails is asked in three turns, if one extra round is allowed. -/
theorem failing_node_settles :
    let node : Candidate := ⟨0, ⟨"a", 1⟩⟩
    let lost : CallResult Unit := .failure ⟨node.address, 0, 0, .timeout⟩
    let limits : Limits := ⟨100, 40, 10, 5, true, 1, 500⟩
    let r := run replies limits (.read none) [⟨"a", 1⟩, ⟨"b", 1⟩] [lost, .missing, lost, lost, lost] 0 none
    r.isStopped = false ∧ r.now + limits.minimumTimeout < 0 + limits.operationTimeout ∧
      r.result.succeeded = false ∧ r.outcomes node = [lost, lost, lost] ∧ r.Settles limits node := by
  intro node lost limits r
  have running : r.isStopped = false := by decide
  have early : r.now + limits.minimumTimeout < 0 + limits.operationTimeout := by decide
  have missed : r.result.succeeded = false := by decide
  obtain ⟨_, _, settles⟩ := run_settles replies limits .read trivial (by simp) (by decide)
    [lost, .missing, lost, lost, lost] 0 none running early missed node (by decide)
  exact ⟨running, early, missed, by decide, settles rfl⟩

/-- A delete that wants more successes than its primary round allows for gives up with nodes unasked. -/
theorem impatient_delete :
    let goal : Goal Unit := .delete ⟨2, 2, 1⟩ []
    let limits : Limits := ⟨100, 40, 10, 5, true, 1, 500⟩
    let failed : CallResult Unit := .failure ⟨⟨"b", 1⟩, 0, 0, .server 500 "oops"⟩
    let r := run replies limits goal [⟨"a", 1⟩, ⟨"b", 1⟩] [.success (), failed] 0 none
    goal.Fresh ∧ goal.minCandidates ≤ 2 ∧ r.isStopped = false ∧
      r.now + limits.minimumTimeout < 0 + limits.operationTimeout ∧ r.result.succeeded = false ∧
      r.outcomes ⟨1, ⟨"b", 1⟩⟩ = [] :=
  ⟨.delete _, by decide⟩

end Operation
end ReplicaRing
