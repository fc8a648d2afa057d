import ReplicaRing.Proofs.Operation.Steps

/-! Where an operation files the nodes it asked. The outcomes of the attempts on a node, in order, decide
which one of the lists of the result it is in, and every node is in at most one. -/
namespace ReplicaRing

variable {ω α : Type}

deriving instance DecidableEq for CallResult

def CallResult.isRetriable : CallResult α → Bool
  | success _ | missing => false
  | failure f => f.isRetriable

namespace Run

def attemptsOn (r : Run ω α) (node : Candidate) : List (Attempt α) := r.attempts.filter (·.node = node)

def outcomes (r : Run ω α) (node : Candidate) : List (CallResult α) := (r.attemptsOn node).map (·.result)

def rounds (r : Run ω α) (node : Candidate) : List Round := (r.attemptsOn node).map (·.round)

end Run

namespace Goal

inductive Fresh : Goal α → Prop
  | read : Fresh (.read none)
  | delete (thresholds : Thresholds) : Fresh (.delete thresholds [])

def afresh : Goal α → Goal α
  | read _ => read none
  | delete thresholds _ => delete thresholds []

def record (node : Candidate) (result : CallResult α) (goal : Goal α) : Goal α :=
  match result with
  | .success value => goal.recordSuccess node value
  | .missing => goal.recordMissing node
  | .failure _ => goal

def Counts (node : Candidate) (value : α) : Goal α → Prop
  | read found => found = some ⟨node, value⟩
  | delete _ done => done.count node = 1

def Leaves (node : Candidate) : Goal α → Prop
  | read found => ∀ value, found ≠ some ⟨node, value⟩
  | delete _ done => done.count node = 0

/-- A node without the content is counted once where that is as good as having deleted it. -/
def CountsMissing (node : Candidate) : Goal α → Prop
  | read found => ∀ value, found ≠ some ⟨node, value⟩
  | delete _ done => done.count node = 1

end Goal

namespace OperationResult

def failuresOf (result : OperationResult α) (node : Candidate) : List NodeFailure :=
  result.failures.filter (·.node = node)

structure Clear (result : OperationResult α) (node : Candidate) : Prop where
  goal : result.goal.Leaves node
  missing : result.missing.count node = 0
  failures : result.failuresOf node = []

/-- The result files a node by the outcomes of the attempts on it, and nowhere else. -/
inductive Files (result : OperationResult α) (node : Candidate) : List (CallResult α) → Prop
  | unasked (clear : result.Clear node) : Files result node []
  | succeeded {before value} (goal : result.goal.Counts node value)
      (missing : result.missing.count node = 0) (failures : result.failuresOf node = []) :
      Files result node (before ++ [.success value])
  | missing {before} (goal : result.goal.CountsMissing node)
      (missing : result.missing.count node = 1) (failures : result.failuresOf node = []) :
      Files result node (before ++ [.missing])
  | failed {f} (goal : result.goal.Leaves node) (missing : result.missing.count node = 0)
      (failures : result.failuresOf node = [f]) : Files result node (f.calls.map .failure)

end OperationResult

structure Stage.Accounted (s : Stage ω α) : Prop where
  files : ∀ node, s.run.result.Files node (s.run.outcomes node)
  retriable : ∀ node, ∀ outcome ∈ (s.run.outcomes node).dropLast, outcome.isRetriable = true
  untried : ∀ node ∈ s.untried, s.run.outcomes node = []
  distinct : s.untried.Nodup
  covers : ∀ node, node ∈ s.run.candidates ↔ node ∈ s.untried ∨ s.run.outcomes node ≠ []
  waiting : ∀ f ∈ s.run.retries, ∀ c ∈ f.calls, c.isRetriable = true

/-! The goal. -/
namespace Goal

variable {goal : Goal α} {node other : Candidate}

theorem Fresh.leaves (fresh : goal.Fresh) (node : Candidate) : goal.Leaves node := by
  cases fresh with
  | read => simp [Leaves]
  | delete thresholds => simp [Leaves]

theorem Fresh.afresh (fresh : goal.Fresh) : goal.afresh = goal := by
  cases fresh with
  | read => rfl
  | delete thresholds => rfl

@[simp] theorem afresh_recordSuccess (node : Candidate) (value : α) :
    (goal.recordSuccess node value).afresh = goal.afresh := by
  cases goal <;> rfl

@[simp] theorem afresh_recordMissing (node : Candidate) : (goal.recordMissing node).afresh = goal.afresh := by
  cases goal <;> rfl

@[simp] theorem afresh_record (node : Candidate) (result : CallResult α) :
    (goal.record node result).afresh = goal.afresh := by
  cases result with
  | success value => exact afresh_recordSuccess node value
  | missing => exact afresh_recordMissing node
  | failure f => rfl

theorem read_of_afresh (kind : goal.afresh = .read none) : ∃ found, goal = .read found := by
  cases goal with
  | read found => exact ⟨found, rfl⟩
  | delete => contradiction

theorem counts_recordSuccess (leaves : goal.Leaves node) (value : α) :
    (goal.recordSuccess node value).Counts node value := by
  cases goal with
  | read found => rfl
  | delete thresholds done => simpa [Counts, recordSuccess, Leaves] using leaves

theorem countsMissing_recordMissing (leaves : goal.Leaves node) :
    (goal.recordMissing node).CountsMissing node := by
  cases goal with
  | read found => exact leaves
  | delete thresholds done => simpa [CountsMissing, recordMissing, Leaves] using leaves

structure Keeps (node : Candidate) (before after : Goal α) : Prop where
  leaves : before.Leaves node → after.Leaves node
  counts : ∀ value, before.Counts node value → after.Counts node value
  countsMissing : before.CountsMissing node → after.CountsMissing node

theorem Keeps.refl (node : Candidate) (goal : Goal α) : goal.Keeps node goal := ⟨id, fun _ => id, id⟩

/-- An incomplete read found nothing yet, so no success is replaced. -/
theorem keeps_recordSuccess {round : Round} (incomplete : goal.isComplete round = false)
    (apart : node ≠ other) (value : α) : goal.Keeps other (goal.recordSuccess node value) := by
  cases goal with
  | read found =>
    have none : found = none := by simpa [isComplete] using incomplete
    subst none
    constructor <;> simp [Leaves, Counts, CountsMissing, recordSuccess, apart]
  | delete thresholds done =>
    constructor <;> simp [Leaves, Counts, CountsMissing, recordSuccess, apart]

theorem keeps_recordMissing (apart : node ≠ other) : goal.Keeps other (goal.recordMissing node) := by
  cases goal with
  | read found => exact .refl ..
  | delete thresholds done =>
    constructor <;> simp [Leaves, Counts, CountsMissing, recordMissing, apart]

end Goal

/-! The lists of the result. -/
namespace OperationResult

variable {result after : OperationResult α} {node : Candidate}

theorem Files.clear (files : result.Files node []) : result.Clear node := by
  generalize h : ([] : List (CallResult α)) = outcomes at files
  cases files with
  | unasked clear => exact clear
  | succeeded => simp at h
  | missing => simp at h
  | failed => simp [NodeFailure.calls] at h

theorem Files.of_failure {outcomes : List (CallResult α)} {f : NodeFailure}
    (files : result.Files node outcomes) (member : f ∈ result.failuresOf node) :
    result.goal.Leaves node ∧ result.missing.count node = 0 ∧ result.failuresOf node = [f] ∧
      outcomes = f.calls.map .failure := by
  cases files with
  | unasked clear => simp [clear.failures] at member
  | succeeded _ _ failures => simp [failures] at member
  | missing _ _ failures => simp [failures] at member
  | failed goal missing failures =>
    rw [failures, List.mem_singleton] at member
    subst member
    exact ⟨goal, missing, failures, rfl⟩

theorem Files.last_failure {outcomes : List (CallResult α)} {c : CallFailure} (files : result.Files node outcomes)
    (last : outcomes.getLast? = some (.failure c)) : ∃ f, result.failuresOf node = [f] ∧ f.last = c := by
  cases files with
  | unasked | succeeded | missing => simp at last
  | @failed f goal missing failures =>
    rw [List.getLast?_map, f.getLast?_calls, Option.map_some, Option.some.injEq, CallResult.failure.injEq] at last
    exact ⟨f, failures, last⟩

theorem Files.frame {outcomes : List (CallResult α)} (files : result.Files node outcomes)
    (goal : result.goal.Keeps node after.goal) (missing : after.missing.count node = result.missing.count node)
    (failures : after.failuresOf node = result.failuresOf node) : after.Files node outcomes := by
  cases files with
  | unasked clear =>
    exact .unasked ⟨goal.leaves clear.goal, missing.trans clear.missing, failures.trans clear.failures⟩
  | succeeded counted none empty =>
    exact .succeeded (goal.counts _ counted) (missing.trans none) (failures.trans empty)
  | missing counted once empty =>
    exact .missing (goal.countsMissing counted) (missing.trans once) (failures.trans empty)
  | failed leaves none one => exact .failed (goal.leaves leaves) (missing.trans none) (failures.trans one)

end OperationResult

/-! Attempts and their results. -/
namespace Operation

variable (op : Operation ω α) (round : Round) {node other : Candidate} (r : Run ω α)
  (result : CallResult α)

theorem attemptsOn_attempt_same :
    (op.attempt round node r).2.attemptsOn node = r.attemptsOn node ++ [op.logged round node r] := by
  simp [Run.attemptsOn, logged]

theorem attemptsOn_attempt_other (apart : node ≠ other) :
    (op.attempt round node r).2.attemptsOn other = r.attemptsOn other := by
  simp [Run.attemptsOn, logged, apart]

@[simp] theorem attemptsOn_file : (op.file node result r).attemptsOn = r.attemptsOn := by
  funext; simp [Run.attemptsOn]

@[simp] theorem attemptsOn_refile (kept rest : List NodeFailure) (f : NodeFailure) :
    (refile kept f rest result r).2.attemptsOn = r.attemptsOn := by
  funext; simp [Run.attemptsOn]

@[simp] theorem attemptsOn_pause (roundStart : Nat) :
    (op.pause roundStart r).2.attemptsOn = r.attemptsOn := by
  funext; simp [Run.attemptsOn]

@[simp] theorem result_attempt : (op.attempt round node r).2.result = r.result := by
  simp [Run.result]

@[simp] theorem file_goal : (op.file node result r).goal = r.goal.record node result := by
  cases result with
  | success value => rfl
  | missing => rfl
  | failure f => simp only [file]; split <;> rfl

theorem file_files (clear : r.result.Clear node) :
    (op.file node result r).result.Files node ([] ++ [result]) := by
  have none : r.failed.filter (·.node = node) = [] ∧ r.retries.filter (·.node = node) = [] := by
    simpa [OperationResult.failuresOf, Run.result] using clear.failures
  cases result with
  | success value =>
    exact .succeeded (Goal.counts_recordSuccess clear.goal value) clear.missing clear.failures
  | missing =>
    refine .missing (Goal.countsMissing_recordMissing clear.goal) ?_ clear.failures
    have absent := clear.missing
    simpa [file, Run.recordMissing, Run.result] using absent
  | failure f =>
    refine .failed (f := .ofCall node f) ?_ ?_ ?_
    · simp only [file]; split <;> exact clear.goal
    · simp only [file]; split <;> exact clear.missing
    · simp only [file]
      split <;> simp [OperationResult.failuresOf, Run.result, none, NodeFailure.ofCall]

theorem file_frame {outcomes : List (CallResult α)} (apart : node ≠ other)
    (incomplete : r.goal.isComplete round = false) (files : r.result.Files other outcomes) :
    (op.file node result r).result.Files other outcomes := by
  cases result with
  | success value => exact files.frame (Goal.keeps_recordSuccess incomplete apart value) rfl rfl
  | missing =>
    refine files.frame (Goal.keeps_recordMissing apart) ?_ rfl
    simp [file, Run.recordMissing, Run.result, apart]
  | failure f =>
    simp only [file]
    split <;> refine files.frame (.refl ..) rfl ?_ <;>
      simp [OperationResult.failuresOf, Run.result, NodeFailure.ofCall, apart]

section Refile

variable {r} {kept due : List NodeFailure} {f : NodeFailure}

@[simp] theorem refile_goal (r : Run ω α) :
    (refile kept f due result r).2.goal = r.goal.record f.node result := by
  cases result with
  | success value => rfl
  | missing => rfl
  | failure c => simp only [refile]; split <;> rfl

theorem alone (retries : r.retries = kept ++ f :: due) (failures : r.result.failuresOf f.node = [f]) :
    r.failed.filter (·.node = f.node) = [] ∧ kept.filter (·.node = f.node) = [] ∧
      due.filter (·.node = f.node) = [] := by
  have sizes := congrArg List.length failures
  simp only [OperationResult.failuresOf, Run.result, retries, List.filter_append, List.length_append,
    List.filter_cons, decide_true, ↓reduceIte, List.length_cons, List.length_nil] at sizes
  refine ⟨?_, ?_, ?_⟩ <;> exact List.eq_nil_of_length_eq_zero (by omega)

theorem refile_files (retries : r.retries = kept ++ f :: due) (goal : r.goal.Leaves f.node)
    (missing : r.missing.count f.node = 0) (failures : r.result.failuresOf f.node = [f]) :
    (refile kept f due result r).2.result.Files f.node (f.calls.map .failure ++ [result]) := by
  obtain ⟨failed, before, after⟩ := alone retries failures
  cases result with
  | success value =>
    refine .succeeded (Goal.counts_recordSuccess goal value) missing ?_
    simp [refile, Run.recordSuccess, Run.result, OperationResult.failuresOf, failed, before, after]
  | missing =>
    refine .missing (Goal.countsMissing_recordMissing goal) ?_ ?_
    · simpa [refile, Run.recordMissing, Run.result] using missing
    · simp [refile, Run.recordMissing, Run.result, OperationResult.failuresOf, failed, before, after]
  | failure c =>
    have calls : (f.calls.map .failure ++ [.failure c] : List (CallResult α)) =
        (f.add c).calls.map .failure := by simp [NodeFailure.calls, NodeFailure.add]
    rw [calls]
    refine .failed (f := f.add c) ?_ ?_ ?_
    · simp only [refile]; split <;> exact goal
    · simp only [refile]; split <;> exact missing
    · simp only [refile]
      split <;> simp [Run.result, OperationResult.failuresOf, NodeFailure.add, failed, before, after]

theorem refile_frame {outcomes : List (CallResult α)} (retries : r.retries = kept ++ f :: due)
    (apart : f.node ≠ other) (incomplete : r.goal.isComplete round = false)
    (files : r.result.Files other outcomes) :
    (refile kept f due result r).2.result.Files other outcomes := by
  cases result with
  | success value =>
    refine files.frame (Goal.keeps_recordSuccess incomplete apart value) rfl ?_
    simp [refile, Run.recordSuccess, Run.result, OperationResult.failuresOf, retries, apart]
  | missing =>
    refine files.frame (Goal.keeps_recordMissing apart) ?_ ?_
    · simp [refile, Run.recordMissing, Run.result, apart]
    · simp [refile, Run.recordMissing, Run.result, OperationResult.failuresOf, retries, apart]
  | failure c =>
    simp only [refile]
    split <;> refine files.frame (.refl ..) rfl ?_ <;>
      simp [Run.result, OperationResult.failuresOf, NodeFailure.add, retries, apart]

end Refile

/-- The nodes of the retries have failures that may pass, and so do those of a node that is filed. -/
theorem waiting_file (waiting : ∀ f ∈ r.retries, ∀ c ∈ f.calls, c.isRetriable = true) :
    ∀ f ∈ (op.file node result r).retries, ∀ c ∈ f.calls, c.isRetriable = true := by
  cases result with
  | success value => exact waiting
  | missing => exact waiting
  | failure c =>
    simp only [file]
    split
    · rename_i queues
      intro f member
      rcases List.mem_append.mp member with before | new
      · exact waiting f before
      · rw [List.mem_singleton.mp new]
        simpa [NodeFailure.ofCall, NodeFailure.calls] using (Bool.and_eq_true_iff.mp queues).2
    · exact waiting

theorem waiting_refile {kept due : List NodeFailure} {f : NodeFailure}
    (waiting : ∀ g ∈ kept ++ f :: due, ∀ c ∈ g.calls, c.isRetriable = true) :
    ∀ g ∈ (refile kept f due result r).2.retries, ∀ c ∈ g.calls, c.isRetriable = true := by
  have others : ∀ g ∈ kept ++ due, ∀ c ∈ g.calls, c.isRetriable = true := fun g member =>
    waiting g (List.Sublist.mem member (List.Sublist.append_left (List.sublist_cons_self f due) kept))
  cases result with
  | success value => exact others
  | missing => exact others
  | failure c =>
    simp only [refile]
    split
    · rename_i again
      intro g member d made
      simp only [List.mem_append, List.mem_singleton] at member
      rcases member with (before | rfl) | after
      · exact others g (List.mem_append_left _ before) d made
      · rw [NodeFailure.add, NodeFailure.calls, ← List.cons_append, List.mem_append,
          List.mem_singleton] at made
        rcases made with earlier | rfl
        · exact waiting f (by simp) d earlier
        · exact again
      · exact others g (List.mem_append_right _ after) d made
    · exact others

end Operation

namespace Stage.Accounted

variable {op : Operation ω α} {s t : Stage ω α}

/-- Steps that make no attempt only move nodes between those left for later and those next. -/
theorem of_same (h : s.Accounted) (candidates : t.run.candidates = s.run.candidates) (result : t.run.result = s.run.result)
    (attemptsOn : t.run.attemptsOn = s.run.attemptsOn) (retries : t.run.retries = s.run.retries)
    (untried : t.untried = s.untried) : t.Accounted where
  files := by simpa only [Run.outcomes, result, attemptsOn] using h.files
  retriable := by simpa only [Run.outcomes, attemptsOn] using h.retriable
  untried := by simpa only [Run.outcomes, attemptsOn, untried] using h.untried
  distinct := untried ▸ h.distinct
  covers := by simpa only [Run.outcomes, candidates, attemptsOn, untried] using h.covers
  waiting := retries ▸ h.waiting

/-- An attempt adds an outcome to one node, after outcomes that may all pass, and files it anew. -/
theorem of_attempt (h : s.Accounted) (op : Operation ω α) (round : Round) (node : Candidate)
    (known : node ∈ s.run.candidates) (candidates : t.run.candidates = s.run.candidates)
    (attemptsOn : t.run.attemptsOn = (op.attempt round node s.run).2.attemptsOn)
    (files : t.run.result.Files node (s.run.outcomes node ++ [(op.attempt round node s.run).1]))
    (frame : ∀ other outcomes, node ≠ other → s.run.result.Files other outcomes →
      t.run.result.Files other outcomes)
    (retriable : ∀ outcome ∈ s.run.outcomes node, outcome.isRetriable = true)
    (untried : t.untried = s.untried.erase node)
    (waiting : ∀ f ∈ t.run.retries, ∀ c ∈ f.calls, c.isRetriable = true) : t.Accounted := by
  have same : t.run.outcomes node = s.run.outcomes node ++ [(op.attempt round node s.run).1] := by
    simp [Run.outcomes, attemptsOn, op.attemptsOn_attempt_same, Operation.logged]
  have unchanged : ∀ other, node ≠ other → t.run.outcomes other = s.run.outcomes other := by
    intro other apart
    simp [Run.outcomes, attemptsOn, op.attemptsOn_attempt_other round s.run apart]
  have left : ∀ other, other ∈ t.untried ↔ other ≠ node ∧ other ∈ s.untried := fun other =>
    untried ▸ h.distinct.mem_erase_iff
  constructor
  · intro other
    by_cases apart : node = other
    · rw [← apart, same]
      exact files
    · rw [unchanged other apart]
      exact frame other _ apart (h.files other)
  · intro other
    by_cases apart : node = other
    · rw [← apart, same, List.dropLast_concat]
      exact retriable
    · rw [unchanged other apart]
      exact h.retriable other
  · intro other member
    obtain ⟨apart, before⟩ := (left other).mp member
    rw [unchanged other (Ne.symm apart)]
    exact h.untried other before
  · exact untried ▸ h.distinct.erase node
  · intro other
    rw [candidates]
    by_cases apart : node = other
    · subst apart
      simp [same, known]
    · rw [h.covers other, unchanged other apart, left other]
      simp [Ne.symm apart]
  · exact waiting

theorem failed (h : s.Accounted) {f : NodeFailure} (member : f ∈ s.run.result.failures) :
    s.run.result.goal.Leaves f.node ∧ s.run.result.missing.count f.node = 0 ∧
      s.run.result.failuresOf f.node = [f] ∧ s.run.outcomes f.node = f.calls.map .failure :=
  (h.files f.node).of_failure (by simpa [OperationResult.failuresOf] using member)

/-- The first attempt on a node, which nothing was filed for. -/
theorem first {round : Round} {skipped fresh : List Candidate} {node : Candidate} {due : List NodeFailure}
    {r : Run ω α} (h : Stage.Accounted ⟨round, skipped, node :: fresh, due, r⟩)
    (incomplete : r.goal.isComplete round = false) : Stage.Accounted ⟨round, skipped, fresh, due,
      op.file node (op.attempt round node r).1 (op.attempt round node r).2⟩ := by
  have none : r.outcomes node = [] := h.untried node (by simp [Stage.untried])
  have clear : r.result.Clear node := (none ▸ h.files node).clear
  have distinct : (skipped ++ node :: fresh).Nodup := h.distinct
  have known : node ∈ r.candidates := (h.covers node).mpr (.inl (by simp [Stage.untried]))
  refine h.of_attempt op round node known (by simp) (by simp) ?_ ?_ ?_ ?_ ?_
  · rw [none]
    exact op.file_files _ _ (op.result_attempt round r ▸ clear)
  · intro other outcomes apart files
    exact op.file_frame round _ _ apart (by simpa using incomplete) (by simpa using files)
  · simp [none]
  · have passed : node ∉ skipped := fun member =>
      (List.nodup_append.mp distinct).2.2 node member node (by simp) rfl
    simp [Stage.untried, List.erase_append_right _ passed]
  · exact op.waiting_file _ _ (by simpa using h.waiting)

/-- Another attempt on a failed node, which adds to its failures or files it anew. -/
theorem again {round : Round} {skipped fresh : List Candidate} {kept due : List NodeFailure} {f : NodeFailure}
    {r : Run ω α} (h : Stage.Accounted ⟨round, skipped, fresh, f :: due, r⟩)
    (incomplete : r.goal.isComplete round = false) (retries : r.retries = kept ++ f :: due) :
    Stage.Accounted ⟨round, skipped, fresh, due,
      (Operation.refile kept f due (op.attempt round f.node r).1 (op.attempt round f.node r).2).2⟩ := by
  have waits : f ∈ r.retries := by simp [retries]
  obtain ⟨goal, missing, failures, outcomes⟩ := h.failed (List.mem_append_right _ waits)
  have places : (op.attempt round f.node r).2.retries = kept ++ f :: due := by simpa using retries
  have asked : r.outcomes f.node ≠ [] := by simp [outcomes, NodeFailure.calls]
  refine h.of_attempt op round f.node ((h.covers f.node).mpr (.inr asked)) (by simp) (by simp)
    ?_ ?_ ?_ ?_ ?_
  · rw [outcomes]
    exact Operation.refile_files _ places (by rw [Operation.attempt_goal]; exact goal)
      (by rw [Operation.attempt_missing]; exact missing) (by rw [Operation.result_attempt]; exact failures)
  · intro other outcomes apart files
    exact Operation.refile_frame round _ places apart (by simpa using incomplete) (by simpa using files)
  · intro outcome made
    rw [outcomes] at made
    obtain ⟨c, member, rfl⟩ := List.mem_map.mp made
    exact h.waiting f waits c member
  · exact (List.erase_of_not_mem fun member => asked (h.untried f.node member)).symm
  · exact Operation.waiting_refile _ _ (retries ▸ h.waiting)

end Stage.Accounted

namespace Operation

variable {op : Operation ω α} {s t : Stage ω α}

theorem Step.accounted (step : op.Step s t) (h : s.Accounted) : t.Accounted := by
  cases step with
  | leave | leaveAll | retry | disabled | extra =>
    exact h.of_same rfl rfl rfl rfl (by simp [Stage.untried])
  | pause may roundStart =>
    exact h.of_same (op.pause_candidates _ _) (op.result_pause _ _) (op.attemptsOn_pause _ _) (op.pause_retries _ _) rfl
  | first may sweeps =>
    obtain ⟨_, incomplete, _⟩ := (op.mayAttempt_iff _ _).mp may
    exact h.first incomplete
  | again may retries =>
    obtain ⟨_, incomplete, _⟩ := (op.mayAttempt_iff _ _).mp may
    exact h.again incomplete retries

theorem Step.afresh (step : op.Step s t) : t.run.goal.afresh = s.run.goal.afresh := by
  cases step with
  | leave | leaveAll | retry | disabled | extra => rfl
  | pause may roundStart => exact congrArg (·.goal.afresh) (op.result_pause s.run roundStart)
  | first => simp
  | again => simp

theorem accounted_start {candidates : List Candidate} {goal : Goal α} {world : ω} {now : Nat}
    {signal : StopSignal} (fresh : goal.Fresh) (distinct : candidates.Nodup) :
    (Stage.start (Run.start candidates goal world now signal)).Accounted where
  files node := .unasked ⟨fresh.leaves node, rfl, rfl⟩
  retriable _ _ none := nomatch none
  untried _ _ := rfl
  distinct := distinct
  covers node := by simp [Stage.start, Stage.untried, Run.start, Run.outcomes, Run.attemptsOn, Run.attempts]
  waiting _ none := nomatch none

end Operation
end ReplicaRing
