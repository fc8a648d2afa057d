import Mathlib.Data.List.Count
import Mathlib.Data.List.Nodup
import ReplicaRing.Proofs.Operation.Order

/-! Which failure a result lists first. Nodes that were given up come before those that might still recover: the
former in the order in which they were given up, the latter in the order of the first attempts on them. So the first
failure on the list is the earliest one just if no node is given up while one that failed before it waits on. -/
namespace ReplicaRing

variable {ω α : Type}

def CallResult.givesUp (limits : Limits) : CallResult α → Bool
  | success _ | missing => false
  | failure f => !(limits.allowRetries && f.isRetriable)

namespace Run

def began (r : Run ω α) (node : Candidate) : Nat := r.attempts.findIdx (·.node = node)

def failing (r : Run ω α) : List Candidate :=
  r.candidates.filter fun node => ((r.outcomes node).getLast?.bind CallResult.failure?).isSome

def earliest? (r : Run ω α) : Option (Attempt α) :=
  r.attempts.find? fun a => a.node ∈ r.result.failures.map NodeFailure.node

def surrender? (r : Run ω α) (limits : Limits) : Option (Attempt α) := r.attempts.find? (·.result.givesUp limits)

/-- The first attempt on the node that was given up first; if none was, the earliest one on a node that failed. -/
def blamed? (r : Run ω α) (limits : Limits) : Option (Attempt α) :=
  match r.surrender? limits with
  | some last => r.attempts.find? (·.node = last.node)
  | none => r.earliest?

section Beginnings

variable {r after : Run ω α} {a : Attempt α} {node : Candidate}

theorem began_lt (asked : ∃ b ∈ r.attempts, b.node = node) : r.began node < r.attempts.length :=
  List.findIdx_lt_length.mpr (by simpa using asked)

theorem began_of_asked (attempts : after.attempts = r.attempts ++ [a]) (asked : ∃ b ∈ r.attempts, b.node = node) :
    after.began node = r.began node := by
  have before : r.attempts.findIdx (·.node = node) < r.attempts.length := began_lt asked
  rw [began, attempts, List.findIdx_append, if_pos before, began]

theorem began_of_unasked (attempts : after.attempts = r.attempts ++ [a]) (here : a.node = node)
    (unasked : r.outcomes node = []) : after.began node = r.attempts.length := by
  have others : ∀ b ∈ r.attempts, b.node ≠ node := by
    simpa [outcomes, attemptsOn, List.filter_eq_nil_iff] using unasked
  have none : r.attempts.findIdx (·.node = node) = r.attempts.length :=
    List.findIdx_eq_length.mpr (by simpa using others)
  rw [began, attempts, List.findIdx_append, none]
  simp [here]

theorem find?_eq_getElem?_began (r : Run ω α) (node : Candidate) :
    r.attempts.find? (·.node = node) = r.attempts[r.began node]? := List.find?_eq_getElem?_findIdx

end Beginnings

end Run

structure Stage.Lined (op : Operation ω α) (s : Stage ω α) : Prop where
  failed : s.run.failed.map NodeFailure.node =
    (s.run.attempts.filter (·.result.givesUp op.limits)).map Attempt.node
  retries : (s.run.retries.map NodeFailure.node).Pairwise fun a b => s.run.began a < s.run.began b

namespace Operation

variable {op : Operation ω α} {node : Candidate} {r : Run ω α}

theorem failed_nodes_file (result : CallResult α) : (op.file node result r).failed.map NodeFailure.node =
    r.failed.map NodeFailure.node ++ if result.givesUp op.limits then [node] else [] := by
  cases result with
  | success value => simp [file, Run.recordSuccess, CallResult.givesUp]
  | missing => simp [file, Run.recordMissing, CallResult.givesUp]
  | failure f =>
    simp only [file, CallResult.givesUp]
    split
    · rename_i waits
      simp [waits]
    · rename_i last
      simp [last, NodeFailure.ofCall]

theorem failed_nodes_refile {limits : Limits} (allowed : limits.allowRetries = true) (kept due : List NodeFailure)
    (f : NodeFailure) (result : CallResult α) : (refile kept f due result r).2.failed.map NodeFailure.node =
      r.failed.map NodeFailure.node ++ if result.givesUp limits then [f.node] else [] := by
  cases result with
  | success value => simp [refile, Run.recordSuccess, CallResult.givesUp]
  | missing => simp [refile, Run.recordMissing, CallResult.givesUp]
  | failure c =>
    simp only [refile, CallResult.givesUp, allowed, Bool.true_and]
    split
    · rename_i waits
      simp [waits]
    · rename_i last
      simp [last, NodeFailure.add]

/-- Of the nodes that waited, all but possibly the one that was asked again do so in their order. -/
theorem retries_refile_sublist (kept due : List NodeFailure) (f : NodeFailure) (result : CallResult α) :
    ((refile kept f due result r).2.retries.map NodeFailure.node).Sublist
      ((kept ++ f :: due).map NodeFailure.node) := by
  rw [refile_retries]
  rcases kept_refile kept due f r result with same | ⟨g, named, grown⟩
  · simp [same]
  · simp [grown, named]

end Operation

namespace Stage

variable {op : Operation ω α} {s t : Stage ω α}

theorem Accounted.asked_of_failed (h : s.Accounted) {f : NodeFailure} (member : f ∈ s.run.result.failures) :
    ∃ a ∈ s.run.attempts, a.node = f.node := by
  obtain ⟨_, _, _, outcomes⟩ := h.failed member
  exact Run.asked_of_outcomes (by simp [outcomes, NodeFailure.calls])

/-- One attempt more, on a node that begins now or goes on to wait in its place. -/
theorem Lined.of_attempt (h : s.Lined op) (round : Round) (node : Candidate)
    (attempts : t.run.attempts = s.run.attempts ++ [op.logged round node s.run])
    (failed : t.run.failed.map NodeFailure.node = s.run.failed.map NodeFailure.node ++
      if (op.attempt round node s.run).1.givesUp op.limits then [node] else [])
    (retries : (t.run.retries.map NodeFailure.node).Pairwise fun a b => t.run.began a < t.run.began b) :
    t.Lined op := by
  refine ⟨?_, retries⟩
  rw [failed, h.failed, attempts, List.filter_append, List.map_append]
  congr 1
  by_cases last : (op.attempt round node s.run).1.givesUp op.limits <;> simp [Operation.logged, last]

theorem Lined.retries_of_asked (h : s.Lined op) (accounted : s.Accounted) {after : Run ω α} {a : Attempt α}
    (attempts : after.attempts = s.run.attempts ++ [a]) :
    (s.run.retries.map NodeFailure.node).Pairwise fun a b => after.began a < after.began b := by
  refine h.retries.imp_of_mem fun {b c} first second before => ?_
  obtain ⟨f, waits, rfl⟩ := List.mem_map.mp first
  obtain ⟨g, waits', rfl⟩ := List.mem_map.mp second
  rwa [Run.began_of_asked attempts (accounted.asked_of_failed (List.mem_append_right _ waits)),
    Run.began_of_asked attempts (accounted.asked_of_failed (List.mem_append_right _ waits'))]

theorem Lined.first {round : Round} {skipped fresh : List Candidate} {node : Candidate} {due : List NodeFailure}
    {r : Run ω α} (h : Stage.Lined op ⟨round, skipped, node :: fresh, due, r⟩)
    (accounted : Stage.Accounted ⟨round, skipped, node :: fresh, due, r⟩) : Stage.Lined op ⟨round, skipped, fresh, due,
      op.file node (op.attempt round node r).1 (op.attempt round node r).2⟩ := by
  let next := op.file node (op.attempt round node r).1 (op.attempt round node r).2
  have attempts : next.attempts = r.attempts ++ [op.logged round node r] := by simp [next]
  have lined := h.retries_of_asked accounted attempts
  refine h.of_attempt round node attempts (by simp [Operation.failed_nodes_file]) ?_
  rcases op.retries_file node (op.attempt round node r).2 (op.attempt round node r).1 with same | ⟨f, rfl, grown⟩
  · rw [same, Operation.attempt_retries]
    exact lined
  · have unasked : r.outcomes f.node = [] := accounted.untried f.node (by simp [untried])
    have new : next.began f.node = r.attempts.length := Run.began_of_unasked attempts rfl unasked
    rw [grown, Operation.attempt_retries, List.map_append, List.pairwise_append]
    refine ⟨lined, List.pairwise_singleton _ _, fun b waits c last => ?_⟩
    obtain ⟨g, before, rfl⟩ := List.mem_map.mp waits
    obtain rfl : c = f.node := by simpa using last
    have asked := accounted.asked_of_failed (List.mem_append_right _ before)
    change next.began g.node < next.began f.node
    rw [new, Run.began_of_asked attempts asked]
    exact Run.began_lt asked

theorem Lined.again {round : Round} {skipped fresh : List Candidate} {kept due : List NodeFailure} {f : NodeFailure}
    {r : Run ω α} (h : Stage.Lined op ⟨round, skipped, fresh, f :: due, r⟩)
    (accounted : Stage.Accounted ⟨round, skipped, fresh, f :: due, r⟩)
    (paced : Stage.Paced op ⟨round, skipped, fresh, f :: due, r⟩) (retries : r.retries = kept ++ f :: due) :
    Stage.Lined op ⟨round, skipped, fresh, due,
      (Operation.refile kept f due (op.attempt round f.node r).1 (op.attempt round f.node r).2).2⟩ := by
  -- Without retries nothing is due.
  have allowed : op.limits.allowRetries = true := by
    refine Bool.not_eq_false _ ▸ fun single => ?_
    have repeats : round.Repeats := paced.repeats rfl
    obtain rfl : round = .primary := paced.single single
    exact repeats
  have attempts : (Operation.refile kept f due (op.attempt round f.node r).1 (op.attempt round f.node r).2).2.attempts =
      r.attempts ++ [op.logged round f.node r] := by simp
  have lined := h.retries_of_asked accounted attempts
  refine h.of_attempt round f.node attempts (by simp [Operation.failed_nodes_refile allowed]) (lined.sublist ?_)
  rw [retries]
  exact Operation.retries_refile_sublist ..

end Stage

namespace Operation

variable {op : Operation ω α} {s t : Stage ω α}

theorem Step.lined (step : op.Step s t) (accounted : s.Accounted) (paced : s.Paced op) (h : s.Lined op) :
    t.Lined op := by
  cases step with
  | leave | leaveAll | retry | disabled | extra => exact ⟨h.failed, h.retries⟩
  | pause may roundStart =>
    have failed : (op.pause roundStart s.run).2.failed = s.run.failed := by rw [pause_eq]
    refine ⟨?_, ?_⟩
    · rw [failed, attempts_pause]
      exact h.failed
    · simpa [Run.began] using h.retries
  | first may sweeps => exact h.first accounted
  | again may retries => exact h.again accounted paced retries

theorem lined_start {candidates : List Candidate} {goal : Goal α} {world : ω} {now : Nat} {signal : StopSignal} :
    (Stage.start (Run.start candidates goal world now signal)).Lined op := ⟨rfl, .nil⟩

theorem run_lined (network : Network ω α) (limits : Limits) {goal : Goal α} (fresh : goal.Fresh)
    (nodes : List NodeAddress) (world : ω) (now : Nat) (signal : StopSignal) :
    ∃ e : Stage ω α, e.Accounted ∧ e.Lined (beginning network limits now) ∧
      e.run.candidates = Candidate.ofAddresses nodes ∧ e.run = run network limits goal nodes world now signal := by
  obtain ⟨e, steps, _, ends⟩ := run_steps network limits goal nodes world now signal
  obtain ⟨accounted, _, lined⟩ := steps.keeps (fun s => s.Accounted ∧ s.Paced _ ∧ s.Lined _)
    (fun _ _ step holds => ⟨step.accounted holds.1, step.paced holds.1 holds.2.1,
      step.lined holds.1 holds.2.1 holds.2.2⟩)
    ⟨accounted_start fresh (ofAddresses_nodup nodes), paced_start, lined_start⟩
  obtain ⟨_, _, candidates, _⟩ := reached_stage fresh steps
  exact ⟨e, accounted, lined, candidates, ends⟩

end Operation

namespace Stage

variable {op : Operation ω α} {s : Stage ω α}

theorem Accounted.first_attempt (h : s.Accounted) {f : NodeFailure} (member : f ∈ s.run.result.failures) :
    ∃ a, s.run.attempts.find? (·.node = f.node) = some a ∧ a.node = f.node ∧ a.result = .failure f.first := by
  obtain ⟨_, _, _, outcomes⟩ := h.failed member
  have first : (s.run.outcomes f.node).head? = some (.failure f.first) := by rw [outcomes]; rfl
  rw [Run.outcomes, Run.attemptsOn, List.head?_map, List.head?_filter, Option.map_eq_some_iff] at first
  obtain ⟨a, found, failed⟩ := first
  exact ⟨a, found, by simpa using List.find?_some found, failed⟩

theorem Accounted.failures_nodup (h : s.Accounted) : (s.run.result.failures.map NodeFailure.node).Nodup := by
  have once : ∀ f ∈ s.run.result.failures, s.run.result.failures.filter (·.node = f.node) = [f] :=
    fun f member => (h.failed member).2.2.1
  rw [List.nodup_iff_count_le_one]
  intro node
  by_cases member : node ∈ s.run.result.failures.map NodeFailure.node
  · obtain ⟨f, failed, rfl⟩ := List.mem_map.mp member
    have one := Nat.le_of_eq (congrArg List.length (once f failed))
    rw [List.count_eq_length_filter, List.filter_map, List.length_map]
    simpa [Function.comp_def, ← beq_eq_decide] using one
  · rw [List.count_eq_zero_of_not_mem member]
    exact Nat.zero_le 1

/-- A result has failures of the nodes that failed at last, and of no others. -/
theorem Accounted.failing_perm (h : s.Accounted) (distinct : s.run.candidates.Nodup) :
    (s.run.result.failures.map NodeFailure.node).Perm s.run.failing := by
  refine (List.perm_ext_iff_of_nodup h.failures_nodup (distinct.filter _)).mpr fun node => ?_
  rw [List.mem_filter, List.mem_map]
  constructor
  · rintro ⟨f, failed, rfl⟩
    obtain ⟨_, _, _, outcomes⟩ := h.failed failed
    refine ⟨(h.covers f.node).mpr (.inr (by simp [outcomes, NodeFailure.calls])), ?_⟩
    rw [outcomes, List.getLast?_map, f.getLast?_calls]
    rfl
  · rintro ⟨-, failed⟩
    obtain ⟨c, found⟩ := Option.isSome_iff_exists.mp failed
    obtain ⟨outcome, last, failure⟩ := Option.bind_eq_some_iff.mp found
    obtain rfl : outcome = .failure c := by
      cases outcome <;> simp_all [CallResult.failure?]
    obtain ⟨f, failures, -⟩ := (h.files node).last_failure last
    have member : f ∈ s.run.result.failuresOf node := by simp [failures]
    exact ⟨f, (List.mem_filter.mp member).1, by simpa using (List.mem_filter.mp member).2⟩

/-- The node that was given up first is the first one of those that were. -/
theorem Lined.surrendered (h : s.Lined op) :
    (s.run.surrender? op.limits).map Attempt.node = (s.run.failed.map NodeFailure.node).head? := by
  rw [h.failed, List.head?_map, List.head?_filter, Run.surrender?]

/-- Where none was given up, the earliest failure is that of the node that waits first. -/
theorem Lined.earliest_waiting (h : s.Lined op) (accounted : s.Accounted) {f : NodeFailure} {rest : List NodeFailure}
    (none : s.run.failed = []) (waiting : s.run.retries = f :: rest) :
    s.run.earliest? = s.run.attempts.find? (·.node = f.node) := by
  have failures : s.run.result.failures = f :: rest := by simp [Run.result, none, waiting]
  obtain ⟨a, found, here, -⟩ := accounted.first_attempt (f := f) (by simp [failures])
  have order := h.retries
  rw [waiting, List.map_cons, List.pairwise_cons] at order
  rw [Run.earliest?, found, List.find?_eq_some_iff_getElem, failures]
  refine ⟨by simp [here], s.run.began f.node, ?_⟩
  rw [Run.find?_eq_getElem?_began, List.getElem?_eq_some_iff] at found
  obtain ⟨inside, made⟩ := found
  refine ⟨inside, made, fun j before => ?_⟩
  -- An attempt on a failed node is no earlier than the first one on it.
  have behind (node : Candidate) (named : s.run.attempts[j].node = node) : s.run.began node ≤ j := by
    by_contra later
    simpa [named] using List.not_of_lt_findIdx (Nat.lt_of_not_le later)
  rw [Bool.not_eq_true', decide_eq_false_iff_not, List.map_cons, List.mem_cons]
  rintro (first | other)
  · exact Nat.not_le.mpr before (behind f.node first)
  · exact Nat.not_le.mpr before (Nat.le_trans (Nat.le_of_lt (order.1 _ other)) (behind _ rfl))

/-- The first failure on the list of a result is what came of the attempt that is blamed. -/
theorem Lined.blamed (h : s.Lined op) (accounted : s.Accounted) {f : NodeFailure} {rest : List NodeFailure}
    (failures : s.run.result.failures = f :: rest) :
    ∃ a, s.run.blamed? op.limits = some a ∧ a.result = .failure f.first := by
  obtain ⟨a, found, -, failed⟩ := accounted.first_attempt (f := f) (by simp [failures])
  refine ⟨a, ?_, failed⟩
  have surrendered := h.surrendered
  cases givenUp : s.run.failed with
  | nil =>
    have none : s.run.surrender? op.limits = none := by simpa [givenUp] using surrendered
    rw [Run.blamed?, none, ← found]
    exact h.earliest_waiting accounted givenUp (by simpa [Run.result, givenUp] using failures)
  | cons g others =>
    obtain rfl : g = f := by simpa [Run.result, givenUp] using congrArg List.head? failures
    obtain ⟨last, first, named⟩ := Option.map_eq_some_iff.mp (surrendered.trans (by rw [givenUp]; rfl))
    simp only [Run.blamed?, first, named, found]

theorem Lined.unblamed (h : s.Lined op) (clean : s.run.result.failures = []) : s.run.blamed? op.limits = none := by
  obtain ⟨kept, -⟩ := List.append_eq_nil_iff.mp clean
  have surrendered : s.run.surrender? op.limits = none := by simpa [kept] using h.surrendered
  simp [Run.blamed?, surrendered, Run.earliest?, clean]

/-- The earliest attempt is blamed just if no other node was given up before the one that it failed on. -/
theorem Lined.blames_earliest_iff (h : s.Lined op) : s.run.blamed? op.limits = s.run.earliest? ↔
    ∀ last, s.run.surrender? op.limits = some last → s.run.earliest?.map Attempt.node = some last.node := by
  cases first : s.run.surrender? op.limits with
  | none => simp [Run.blamed?, first]
  | some last =>
    have blamed : s.run.blamed? op.limits = s.run.attempts.find? (·.node = last.node) := by
      simp only [Run.blamed?, first]
    have made : last ∈ s.run.attempts := List.mem_of_find?_eq_some first
    have failed : last.node ∈ s.run.result.failures.map NodeFailure.node := by
      have head := h.surrendered
      rw [first, Option.map_some] at head
      rw [Run.result, List.map_append]
      exact List.mem_append_left _ (List.mem_of_head? head.symm)
    rw [blamed]
    constructor
    · intro same _ again
      cases again
      have asked : (s.run.attempts.find? (·.node = last.node)).isSome = true :=
        List.find?_isSome.mpr ⟨last, made, decide_eq_true rfl⟩
      obtain ⟨a, found⟩ := Option.isSome_iff_exists.mp asked
      rw [← same, found]
      simpa using List.find?_some found
    · intro named
      obtain ⟨a, found, here⟩ := Option.map_eq_some_iff.mp (named last rfl)
      rw [found]
      rw [Run.earliest?, List.find?_eq_some_iff_append] at found
      rw [List.find?_eq_some_iff_append]
      obtain ⟨-, before, after, attempts, none⟩ := found
      refine ⟨decide_eq_true here, before, after, attempts, fun b member => ?_⟩
      have other := none b member
      simp only [Bool.not_eq_true', decide_eq_false_iff_not] at other ⊢
      exact fun same => other (same ▸ failed)

end Stage
end ReplicaRing
