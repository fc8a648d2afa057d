import Mathlib.Data.List.Nodup
import ReplicaRing.Config.Basic
import ReplicaRing.Proofs.Operation.Flags

/-! Deletes and their thresholds. A delete counts the nodes that succeeded, asks for fewer of them the
later the round, and so never succeeds on more than are wanted. -/
namespace ReplicaRing

variable {ω α : Type}

structure Thresholds.Ordered (thresholds : Thresholds) : Prop where
  positive : 0 < thresholds.minimal
  optimal : thresholds.minimal ≤ thresholds.optimal
  maximal : thresholds.optimal ≤ thresholds.maximal

theorem ClientConfig.thresholds_ordered {c : ClientConfig} (valid : c.validate = .ok ()) :
    c.operation.thresholds.Ordered := by
  simp only [validate] at valid
  split at valid
  · contradiction
  · rename_i positive
    split at valid
    · contradiction
    · rename_i ordered
      rw [not_or, Nat.not_lt, Nat.not_lt] at ordered
      exact ⟨Nat.pos_of_ne_zero positive, ordered.1, ordered.2⟩

def successes (attempts : List (Attempt α)) : List Candidate :=
  (attempts.filter (·.result.succeeded)).map (·.node)

theorem successes_concat (before : List (Attempt α)) (a : Attempt α) :
    successes (before ++ [a]) = successes before ++ if a.result.succeeded then [a.node] else [] := by
  simp only [successes, List.filter_append, List.map_append, List.filter_cons, List.filter_nil]
  split <;> rfl

theorem Goal.record_delete (thresholds : Thresholds) (done : List Candidate) (node : Candidate)
    (result : CallResult α) : (delete thresholds done).record node result =
      delete thresholds (done ++ if result.succeeded then [node] else []) := by
  cases result with
  | success value => rfl
  | missing => rfl
  | failure f => simp [record, CallResult.succeeded]

/-- The later the round, the lower the threshold that is still missed. -/
theorem Thresholds.Ordered.missed {thresholds : Thresholds} (ordered : thresholds.Ordered) {oks : Nat}
    {round : Round} (incomplete : Goal.reached thresholds oks round = false) :
    oks < thresholds.maximal ∧ (round ≠ .primary → oks < thresholds.optimal) ∧
      (round ≠ .primary → round ≠ .retry → oks < thresholds.minimal) := by
  obtain ⟨_, optimal, maximal⟩ := ordered
  cases round with
  | primary =>
    have missed : oks < thresholds.maximal := by simpa [Goal.reached] using incomplete
    exact ⟨missed, by simp⟩
  | retry =>
    have missed : oks < thresholds.optimal := by simpa [Goal.reached] using incomplete
    exact ⟨by omega, fun _ => missed, by simp⟩
  | disabled | extra =>
    have missed : oks < thresholds.minimal := by simpa [Goal.reached] using incomplete
    exact ⟨by omega, fun _ => by omega, fun _ _ => missed⟩

namespace Operation

variable {op : Operation ω α} {s t : Stage ω α} {thresholds : Thresholds}

/-- A delete counts just the nodes that succeeded. -/
theorem Step.counts (step : op.Step s t)
    (counted : s.run.goal = .delete thresholds (successes s.run.attempts)) :
    t.run.goal = .delete thresholds (successes t.run.attempts) := by
  rcases step.attempts with ⟨same, goal, _⟩ | ⟨a, _, more, goal, _⟩
  · rw [goal, same, counted]
  · rw [goal, more, counted, Goal.record_delete, successes_concat]

theorem mem_successes {r : Run ω α} {node : Candidate} :
    node ∈ successes r.attempts ↔ (r.outcomes node).any CallResult.succeeded = true := by
  simp only [successes, Run.outcomes, Run.attemptsOn, List.mem_map, List.mem_filter, List.any_eq_true,
    decide_eq_true_eq]
  constructor
  · rintro ⟨a, ⟨made, succeeded⟩, rfl⟩
    exact ⟨a.result, ⟨a, ⟨made, rfl⟩, rfl⟩, succeeded⟩
  · rintro ⟨_, ⟨a, ⟨made, rfl⟩, rfl⟩, succeeded⟩
    exact ⟨a, ⟨made, succeeded⟩, rfl⟩

/-- Counting the nodes that succeeded is counting the candidates with such an outcome. -/
theorem successes_perm {r : Run ω α} {candidates : List Candidate} (listed : candidates.Nodup)
    (distinct : (successes r.attempts).Nodup) (known : successes r.attempts ⊆ candidates) :
    (successes r.attempts).Perm (candidates.filter fun node => (r.outcomes node).any CallResult.succeeded) := by
  refine (List.perm_ext_iff_of_nodup distinct (listed.filter _)).mpr fun node => ?_
  rw [List.mem_filter, ← mem_successes]
  exact ⟨fun member => ⟨known member, member⟩, And.right⟩

theorem successes_nodup (accounted : s.Accounted)
    (counted : s.run.goal = .delete thresholds (successes s.run.attempts)) : (successes s.run.attempts).Nodup := by
  refine List.nodup_iff_count_le_one.mpr fun node => ?_
  have goal : s.run.result.goal = .delete thresholds (successes s.run.attempts) := counted
  have files := accounted.files node
  generalize s.run.outcomes node = outcomes at files
  cases files with
  | unasked clear =>
    have uncounted := clear.goal
    rw [goal] at uncounted
    exact Nat.le_of_lt (Nat.lt_one_iff.mpr uncounted)
  | succeeded counts => rw [goal] at counts; exact Nat.le_of_eq counts
  | missing counts => rw [goal] at counts; exact Nat.le_of_eq counts
  | failed uncounted =>
    rw [goal] at uncounted
    exact Nat.le_of_lt (Nat.lt_one_iff.mpr uncounted)

section Deleting

variable {network : Network ω α} {limits : Limits} {nodes : List NodeAddress} {world : ω} {now : Nat}
  {signal : StopSignal}

theorem run_too_few {goal : Goal α} (few : nodes.length < goal.minCandidates) :
    run network limits goal nodes world now signal =
      .start (Candidate.ofAddresses nodes) goal world now signal := by
  simp only [run, few, decide_true, Bool.or_true, ↓reduceIte]

/-- At each attempt the nodes that had succeeded were too few for its round. -/
theorem wanted_of_made {before : List (Attempt α)} {a : Attempt α}
    (made : before ++ [a] <+: (run network limits (.delete thresholds []) nodes world now signal).attempts) :
    Goal.reached thresholds (successes before).length a.round = false := by
  obtain ⟨m, steps, makes, rfl⟩ := run_made made
  have counted := steps.keeps (fun s => s.run.goal = .delete thresholds (successes s.run.attempts))
    (fun _ _ => Step.counts) rfl
  obtain ⟨_, incomplete, _⟩ := (mayAttempt_iff _ _ _).mp makes.may
  rw [counted] at incomplete
  exact makes.round ▸ incomplete

theorem successes_length_le (ordered : thresholds.Ordered) :
    (successes (run network limits (.delete thresholds []) nodes world now signal).attempts).length ≤
      thresholds.maximal := by
  rcases List.eq_nil_or_concat
    (run network limits (.delete thresholds []) nodes world now signal).attempts with none | ⟨before, a, split⟩
  · simp [none, successes]
  · rw [List.concat_eq_append] at split
    have made : before ++ [a] <+:
        (run network limits (.delete thresholds []) nodes world now signal).attempts :=
      split ▸ List.prefix_refl _
    have wanted := (ordered.missed (wanted_of_made made)).1
    rw [split, successes_concat, List.length_append]
    split <;> simp only [List.length_cons, List.length_nil] <;> omega

end Deleting

/-- A delete leaves out a node that is never disabled only if it has to stop or is done. -/
theorem Ended.left_out {seen : ω → Prop} (ended : op.Ended s) (allowed : op.limits.allowRetries = true)
    (defers : s.Defers op seen) (counted : s.run.goal = .delete thresholds (successes s.run.attempts))
    {node : Candidate} (untried : node ∈ s.untried) (enabled : op.network.StaysEnabled seen node.address) :
    thresholds.maximal ≤ (successes s.run.attempts).length ∨ s.run.isStopped = true ∨
      op.deadline ≤ s.run.now + op.limits.minimumTimeout := by
  have fresh : node ∈ s.fresh :=
    (List.mem_append.mp untried).resolve_left fun skipped => defers.skipped node skipped enabled
  have primary : s.round = .primary :=
    not_imp_comm.mp (fun late => defers.fresh late node fresh) (not_not.mpr enabled)
  cases ended with
  | finished finished =>
    rw [Run.isOver, Bool.or_eq_true, primary, counted] at finished
    rcases finished with stopped | complete
    · exact .inr (.inl stopped)
    · exact .inl (of_decide_eq_true complete)
  | late late => exact .inr (.inr late)
  | single once => exact absurd (once ▸ allowed) Bool.false_ne_true
  | exhausted => exact absurd fresh List.not_mem_nil

/-- Deletes and their thresholds. With too few candidates nothing is called. Else the nodes that succeed
are some of the candidates, each once, and no more than are wanted; each round calls nodes only while its
threshold is missed; the delete succeeds if candidates enough answered; and while the enabled nodes come
first, with retries each one is asked unless the delete has to stop or has succeeded on all it wants. -/
theorem run_within_thresholds (network : Network ω α) (limits : Limits) {thresholds : Thresholds}
    (ordered : thresholds.Ordered) (nodes : List NodeAddress) (world : ω) (now : Nat) (signal : StopSignal) :
    let r := run network limits (.delete thresholds []) nodes world now signal
    let candidates := Candidate.ofAddresses nodes
    let seen := (beginning network limits now).Sees (world, signal) r.attempts
    (nodes.length < thresholds.minimal →
      r.attempts = [] ∧ r.result.succeeded = false ∧ r.result.failed = false) ∧
    (∃ done, r.result.goal = .delete thresholds done ∧ done.Nodup ∧ done ⊆ candidates ∧
      done.length ≤ thresholds.maximal) ∧
    (∀ before a, before ++ [a] <+: r.attempts →
      (successes before).length < thresholds.maximal ∧
      (a.round ≠ .primary → (successes before).length < thresholds.optimal) ∧
      (a.round ≠ .primary → a.round ≠ .retry → (successes before).length < thresholds.minimal)) ∧
    (r.result.succeeded = true ↔ thresholds.minimal ≤
      (candidates.filter fun node => (r.outcomes node).any CallResult.succeeded).length) ∧
    (thresholds.minimal ≤ nodes.length → limits.allowRetries = true → network.KeepsOrder seen nodes →
      ∀ node ∈ candidates, network.StaysEnabled seen node.address → r.outcomes node ≠ [] ∨
        thresholds.maximal ≤ (successes r.attempts).length ∨ r.isStopped = true ∨
        now + limits.operationTimeout ≤ r.now + limits.minimumTimeout) := by
  intro r candidates seen
  obtain ⟨e, steps, ended, ends⟩ := run_steps network limits (.delete thresholds []) nodes world now signal
  obtain ⟨accounted, _, known, _⟩ := reached_stage (.delete thresholds) steps
  have counted := steps.keeps (fun s => s.run.goal = .delete thresholds (successes s.run.attempts))
    (fun _ _ => Step.counts) rfl
  have run : e.run = r := ends
  have goal : r.result.goal = .delete thresholds (successes r.attempts) := run ▸ counted
  have distinct : (successes r.attempts).Nodup := run ▸ successes_nodup accounted counted
  have covers : ∀ node, node ∈ candidates ↔ node ∈ e.untried ∨ r.outcomes node ≠ [] := by
    rw [← run, show candidates = e.run.candidates from known.symm]
    exact accounted.covers
  have answered : ∀ node ∈ successes r.attempts, node ∈ candidates := by
    intro node member
    refine (covers node).mpr (.inr fun none => ?_)
    simp [mem_successes, none] at member
  refine ⟨?_, ⟨_, goal, distinct, answered, successes_length_le ordered⟩, ?_, ?_, ?_⟩
  · intro few
    have idle : r = .start candidates (.delete thresholds []) world now signal := run_too_few few
    have positive := Nat.pos_iff_ne_zero.mp ordered.positive
    simp [idle, Run.start, Run.attempts, Run.result, OperationResult.succeeded, OperationResult.failed, Goal.succeeded,
      positive]
  · exact fun before a made => ordered.missed (wanted_of_made made)
  · rw [OperationResult.succeeded, goal, ← (successes_perm (ofAddresses_nodup nodes) distinct answered).length_eq]
    exact decide_eq_true_iff
  · intro enough allowed routed node member enabled
    rcases (covers node).mp member with untried | asked
    · have defers : e.Defers (beginning network limits now) seen :=
        steps.defers (run ▸ List.prefix_refl _) routed
      have some : nodes ≠ [] := List.length_pos_iff.mp (Nat.lt_of_lt_of_le ordered.positive enough)
      have left := (ended some enough).left_out allowed defers counted untried enabled
      exact .inr (run ▸ left)
    · exact .inl asked

/-- A delete that ends once it succeeded on two nodes, on the second of them when asking it again. -/
theorem second_success_suffices :
    let thresholds : Thresholds := ⟨1, 2, 3⟩
    let limits : Limits := ⟨100, 40, 10, 5, true, 3, 500⟩
    let nodes : List NodeAddress := [⟨"a", 1⟩, ⟨"b", 1⟩, ⟨"c", 1⟩]
    let failure (cause : FailureCause) : CallResult Unit := .failure ⟨⟨"b", 1⟩, 0, 0, cause⟩
    let store := [.success (), failure (.server 500 "oops"), failure .timeout, .success ()]
    let r := run replies limits (.delete thresholds []) nodes store 0 none
    let seen := (beginning replies limits 0).Sees (store, none) r.attempts
    thresholds.Ordered ∧ replies.KeepsOrder seen nodes ∧ replies.StaysEnabled seen ⟨"c", 1⟩ ∧
      r.attempts.map (·.node.position) = [0, 1, 2, 2] ∧
      (successes r.attempts).map (·.position) = [0, 2] ∧
      (∃ done, r.result.goal = .delete thresholds done ∧ done.Nodup ∧
        done ⊆ Candidate.ofAddresses nodes ∧ done.length ≤ thresholds.maximal) ∧
      (r.outcomes ⟨2, ⟨"c", 1⟩⟩ ≠ [] ∨ thresholds.maximal ≤ (successes r.attempts).length ∨
        r.isStopped = true ∨ 0 + limits.operationTimeout ≤ r.now + limits.minimumTimeout) := by
  intro thresholds limits nodes failure store r seen
  have ordered : thresholds.Ordered := ⟨by decide, by decide, by decide⟩
  have routed : replies.KeepsOrder seen nodes := fun _ _ => List.pairwise_of_forall fun _ _ => id
  have enabled : replies.StaysEnabled seen ⟨"c", 1⟩ := fun _ _ => rfl
  obtain ⟨_, within, _, _, asked⟩ := run_within_thresholds replies limits ordered nodes store 0 none
  exact ⟨ordered, routed, enabled, by decide, by decide, within,
    asked (by decide) rfl routed ⟨2, ⟨"c", 1⟩⟩ (by decide) enabled⟩

end Operation
end ReplicaRing
