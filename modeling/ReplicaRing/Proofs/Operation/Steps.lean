import Mathlib.Logic.Relation
import ReplicaRing.Proofs.Operation.Attempt

/-! Operations step by step. A stage says where an operation stands between two calls, and a step leads
to the next one. Every run is a sequence of steps, and it ends for a cause; so what each step keeps holds
at the end of every run. -/
namespace ReplicaRing

/-- Numbers the rounds in which one node may be called: it is tried for the first time in turn 0 or 1,
and again in every turn that follows. -/
def Round.turn : Round → Nat
  | primary => 0
  | retry | disabled => 1
  | extra number => number + 1

/-- In the round, `fresh` are still to be tried for the first time and `due`, the last ones among the
retries, once more; `skipped` are left to the disabled round. -/
structure Stage (ω α : Type) where
  round : Round
  skipped : List Candidate
  fresh : List Candidate
  due : List NodeFailure
  run : Run ω α

namespace Stage

variable {ω α : Type}

def start (r : Run ω α) : Stage ω α := ⟨.primary, [], r.candidates, [], r⟩

def untried (s : Stage ω α) : List Candidate := s.skipped ++ s.fresh

end Stage

namespace Operation

variable {ω α : Type}

/-- All that an operation does between two stages. Only attempts and pauses change the run. -/
inductive Step (op : Operation ω α) : Stage ω α → Stage ω α → Prop
  | leave {skipped fresh node due r} (disabled : op.leavesOut node r = true)
      (passes : r.goal.stopsAtDisabled = false) :
      Step op ⟨.primary, skipped, node :: fresh, due, r⟩ ⟨.primary, skipped ++ [node], fresh, due, r⟩
  | leaveAll {skipped fresh node due r} (disabled : op.leavesOut node r = true)
      (stops : r.goal.stopsAtDisabled = true) :
      Step op ⟨.primary, skipped, node :: fresh, due, r⟩ ⟨.primary, skipped ++ node :: fresh, [], due, r⟩
  | first {round skipped fresh node due r} (may : op.mayAttempt round r = true)
      (sweeps : round = .primary ∧ op.leavesOut node r = false ∨ round = .disabled) :
      Step op ⟨round, skipped, node :: fresh, due, r⟩ ⟨round, skipped, fresh, due,
        op.file node (op.attempt round node r).1 (op.attempt round node r).2⟩
  | again {round skipped fresh node due r kept} (may : op.mayAttempt round r = true)
      (retries : r.retries = kept ++ node :: due) :
      Step op ⟨round, skipped, fresh, node :: due, r⟩ ⟨round, skipped, fresh, due,
        (refile kept node due (op.attempt round node.node r).1 (op.attempt round node.node r).2).2⟩
  | pause {s} (may : op.mayAttempt s.round s.run = true) (roundStart : Nat) (later : s.round ≠ .primary) :
      Step op s { s with run := (op.pause roundStart s.run).2 }
  | retry {skipped r} (allowed : op.limits.allowRetries = true) :
      Step op ⟨.primary, skipped, [], [], r⟩ ⟨.retry, skipped, [], r.retries, r⟩
  | disabled {skipped r} : Step op ⟨.retry, skipped, [], [], r⟩ ⟨.disabled, [], skipped, [], r⟩
  | extra {round r} (late : round = .disabled ∨ ∃ number, round = .extra number)
      (left : round.turn ≤ op.limits.maxRetryRounds) :
      Step op ⟨round, [], [], [], r⟩ ⟨.extra round.turn, [], [], r.retries, r⟩

def Steps (op : Operation ω α) : Stage ω α → Stage ω α → Prop := Relation.ReflTransGen op.Step

/-- Why an operation ends where it does: there is nothing to be done any more, it is too late to do it,
or everything has been done. -/
inductive Ended (op : Operation ω α) : Stage ω α → Prop
  | finished {s} (finished : s.run.isOver s.round = true) : Ended op s
  | late {s} (late : op.deadline ≤ s.run.now + op.limits.minimumTimeout) : Ended op s
  | single {r} (once : op.limits.allowRetries = false) : Ended op ⟨.primary, [], [], [], r⟩
  | exhausted {round r} (late : round = .disabled ∨ ∃ number, round = .extra number)
      (nothing : r.retries = [] ∨ op.limits.maxRetryRounds < round.turn) :
      Ended op ⟨round, [], [], [], r⟩

variable {op : Operation ω α}

/-- What every step keeps holds after any number of them. -/
theorem Steps.keeps {s t : Stage ω α} (steps : op.Steps s t) (holds : Stage ω α → Prop)
    (keeps : ∀ s t, op.Step s t → holds s → holds t) (initial : holds s) : holds t := by
  induction steps with
  | refl => exact initial
  | tail _ step ih => exact keeps _ _ step ih

theorem Step.candidates {s t : Stage ω α} (step : op.Step s t) :
    t.run.candidates = s.run.candidates := by
  cases step <;> simp

/-- A part of an operation that goes on leads to a stage; otherwise it ends with the run of that stage. -/
def Leads (op : Operation ω α) (s : Stage ω α) (goesOn : Bool) (t : Stage ω α) : Prop :=
  if goesOn then op.Steps s t else ∃ e, op.Steps s e ∧ op.Ended e ∧ e.run = t.run

theorem Leads.trans {s t u : Stage ω α} {goesOn : Bool} (first : op.Leads s true t)
    (later : op.Leads t goesOn u) : op.Leads s goesOn u := by
  cases goesOn with
  | true => exact Relation.ReflTransGen.trans first later
  | false =>
    obtain ⟨e, steps, ended, run⟩ := later
    exact ⟨e, Relation.ReflTransGen.trans first steps, ended, run⟩

theorem Leads.step {s t u : Stage ω α} {goesOn : Bool} (step : op.Step s t)
    (leads : op.Leads t goesOn u) : op.Leads s goesOn u :=
  Leads.trans (Relation.ReflTransGen.single step) leads

theorem Leads.refl (s : Stage ω α) : op.Leads s true s := Relation.ReflTransGen.refl

theorem Leads.ended {s t : Stage ω α} (ended : op.Ended s) (run : s.run = t.run) :
    op.Leads s false t := ⟨s, .refl, ended, run⟩

theorem ended_of_mayAttempt {s : Stage ω α} (may : op.mayAttempt s.round s.run = false) :
    op.Ended s := by
  rw [mayAttempt, Bool.and_eq_false_iff] at may
  rcases may with finished | late
  · exact .finished (by simpa using finished)
  · exact .late (by simpa using late)

/-- After an attempt the round goes on unless there is nothing to be done any more. -/
theorem leads_unless_over (s : Stage ω α) : op.Leads s (!s.run.isOver s.round) s := by
  cases finished : s.run.isOver s.round with
  | true => exact .ended (.finished finished) rfl
  | false => exact .refl s

variable (op)

theorem tryFirst_leads (round : Round) (skipped fresh : List Candidate) (node : Candidate)
    (due : List NodeFailure) (r : Run ω α)
    (sweeps : round = .primary ∧ op.leavesOut node r = false ∨ round = .disabled) :
    op.Leads ⟨round, skipped, node :: fresh, due, r⟩ (op.tryFirst round node r).1
      ⟨round, skipped, fresh, due, (op.tryFirst round node r).2⟩ := by
  simp only [tryFirst]
  split
  · rename_i may
    exact (leads_unless_over _).step (.first may sweeps)
  · rename_i mayNot
    exact .ended (ended_of_mayAttempt (Bool.not_eq_true _ ▸ mayNot)) rfl

theorem sweep_leads (skipped nodes : List Candidate) (due : List NodeFailure) (r : Run ω α) :
    op.Leads ⟨.disabled, skipped, nodes, due, r⟩ (op.sweep .disabled nodes r).1
      ⟨.disabled, skipped, [], due, (op.sweep .disabled nodes r).2⟩ := by
  induction nodes generalizing r with
  | nil => exact .refl _
  | cons node rest ih =>
    have tried := op.tryFirst_leads .disabled skipped rest node due r (.inr rfl)
    simp only [sweep]
    split
    · rename_i next goesOn
      rw [goesOn] at tried
      exact tried.trans (ih next)
    · rename_i last stops
      rw [stops] at tried
      exact tried

theorem primary_leads (skipped nodes : List Candidate) (due : List NodeFailure) (r : Run ω α) :
    op.Leads ⟨.primary, skipped, nodes, due, r⟩ (op.primary nodes r).1
      ⟨.primary, skipped ++ (op.primary nodes r).2.1, [], due, (op.primary nodes r).2.2⟩ := by
  induction nodes generalizing skipped r with
  | nil => simpa [primary] using Leads.refl _
  | cons node rest ih =>
    simp only [primary]
    split
    · rename_i disabled
      split
      · rename_i stops
        exact (Leads.refl _).step (.leaveAll disabled stops)
      · rename_i passes
        have later := ih (skipped ++ [node]) r
        rw [List.append_assoc] at later
        exact later.step (.leave disabled (Bool.not_eq_true _ ▸ passes))
    · rename_i enabled
      have tried := op.tryFirst_leads .primary skipped rest node due r
        (.inl ⟨rfl, Bool.not_eq_true _ ▸ enabled⟩)
      split
      · rename_i next goesOn
        rw [goesOn] at tried
        exact tried.trans (ih skipped next)
      · rename_i last stops
        rw [stops] at tried
        exact tried

theorem retryEach_leads (round : Round) (skipped fresh : List Candidate) (kept due : List NodeFailure)
    (r : Run ω α) (retries : r.retries = kept ++ due) :
    op.Leads ⟨round, skipped, fresh, due, r⟩ (op.retryEach round kept due r).1
      ⟨round, skipped, fresh, [], (op.retryEach round kept due r).2⟩ := by
  induction due generalizing kept r with
  | nil => exact .refl _
  | cons node rest ih =>
    simp only [retryEach]
    split
    · rename_i may
      refine Leads.step (.again may retries) ?_
      have places := refile_retries (op.attempt round node.node r).2 kept rest node
        (op.attempt round node.node r).1
      split
      · rename_i finished
        exact .ended (.finished finished) rfl
      · exact ih _ _ places
    · rename_i mayNot
      exact .ended (ended_of_mayAttempt (Bool.not_eq_true _ ▸ mayNot)) rfl

theorem retryRound_leads (round : Round) (skipped fresh : List Candidate) (roundStart : Nat)
    (r : Run ω α) (may : op.mayAttempt round r = true) (later : round ≠ .primary) :
    op.Leads ⟨round, skipped, fresh, r.retries, r⟩ (op.retryRound round roundStart r).1.isSome
      ⟨round, skipped, fresh, [], (op.retryRound round roundStart r).2⟩ := by
  have paused : op.Step ⟨round, skipped, fresh, r.retries, r⟩ _ := .pause may roundStart later
  refine Leads.step paused ?_
  simp only [retryRound]
  split
  · rename_i woken interrupted
    have stopped := op.pause_isStopped r roundStart (by rw [interrupted])
    rw [interrupted] at stopped ⊢
    exact .ended (.finished (by simp [Run.isOver, stopped])) rfl
  · rename_i woken rested
    have same : woken.retries = r.retries := by
      rw [← op.pause_retries r roundStart, rested]
    have each := op.retryEach_leads round skipped fresh [] woken.retries woken rfl
    rw [rested]
    rw [same] at each ⊢
    cases goesOn : (op.retryEach round [] r.retries woken).1 <;> simpa [goesOn] using each

theorem extraRounds_ends (left roundStart : Nat) (round : Round) (r : Run ω α)
    (late : round = .disabled ∨ ∃ number, round = .extra number)
    (budget : round.turn + left = op.limits.maxRetryRounds + 1) :
    ∃ e, op.Steps ⟨round, [], [], [], r⟩ e ∧ op.Ended e ∧
      e.run = op.extraRounds left round.turn roundStart r := by
  induction left generalizing round roundStart r with
  | zero => exact ⟨_, .refl, .exhausted late (.inr (by omega)), rfl⟩
  | succ left ih =>
    simp only [extraRounds]
    have entered : op.Step ⟨round, [], [], [], r⟩ _ := .extra late (by omega)
    split
    · rename_i ends
      rcases Bool.or_eq_true _ _ ▸ ends with none | mayNot
      · exact ⟨_, .refl, .exhausted late (.inl (List.isEmpty_iff.mp none)), rfl⟩
      · exact ⟨_, .single entered, ended_of_mayAttempt (by simpa using mayNot), rfl⟩
    · rename_i more
      have may : op.mayAttempt (.extra round.turn) r = true := by simp_all
      have again := (op.retryRound_leads (.extra round.turn) [] [] roundStart r may nofun).step entered
      split
      · rename_i began next goesOn
        rw [goesOn] at again
        obtain ⟨e, steps, ended, run⟩ :=
          ih began (.extra round.turn) next (.inr ⟨_, rfl⟩) (by rw [Round.turn]; omega)
        exact ⟨e, Relation.ReflTransGen.trans again steps, ended, run⟩
      · rename_i last stops
        rw [stops] at again
        exact again

theorem laterRounds_ends (skipped : List Candidate) (roundStart : Nat) (r : Run ω α)
    (may : op.mayAttempt .retry r = true) :
    ∃ e, op.Steps ⟨.retry, skipped, [], r.retries, r⟩ e ∧ op.Ended e ∧
      e.run = op.laterRounds roundStart skipped r := by
  have retried : op.Leads ⟨.retry, skipped, [], r.retries, r⟩
      (if r.retries.isEmpty then (some roundStart, r)
        else op.retryRound .retry roundStart r).1.isSome
      ⟨.retry, skipped, [], [], (if r.retries.isEmpty then (some roundStart, r)
        else op.retryRound .retry roundStart r).2⟩ := by
    split
    · rename_i none
      rw [List.isEmpty_iff.mp none]
      exact .refl _
    · exact op.retryRound_leads .retry skipped [] roundStart r may nofun
  simp only [laterRounds]
  split
  · rename_i last stops
    rw [stops] at retried
    exact retried
  · rename_i began goesOn
    rw [goesOn] at retried
    have swept := retried.trans (Leads.step .disabled (op.sweep_leads [] skipped [] _))
    split
    · rename_i next sweeps
      rw [sweeps] at swept
      obtain ⟨e, steps, ended, run⟩ := op.extraRounds_ends op.limits.maxRetryRounds began .disabled next
        (.inl rfl) (Nat.add_comm ..)
      exact ⟨e, Relation.ReflTransGen.trans swept steps, ended, run⟩
    · rename_i last stops
      rw [stops] at swept
      exact swept

theorem primary_skips_nothing (once : op.limits.allowRetries = false) (nodes : List Candidate)
    (r : Run ω α) : (op.primary nodes r).2.1 = [] := by
  induction nodes generalizing r with
  | nil => rfl
  | cons node rest ih =>
    simp only [primary, leavesOut, once, Bool.false_and, Bool.false_eq_true, ↓reduceIte]
    split
    · exact ih _
    · rfl

/-- Every run is a sequence of steps from the first stage, and ends for a cause. -/
theorem drive_steps (r : Run ω α) :
    ∃ e, op.Steps (.start r) e ∧ op.Ended e ∧ e.run = op.drive r := by
  have first := op.primary_leads [] r.candidates [] r
  simp only [drive]
  cases goesOn : (op.primary r.candidates r).1 with
  | false =>
    rw [goesOn] at first
    exact first
  | true =>
    rw [goesOn, List.nil_append] at first
    cases allowed : op.limits.allowRetries with
    | false =>
      rw [op.primary_skips_nothing allowed] at first
      exact ⟨_, first, .single allowed, rfl⟩
    | true =>
      have entered := first.trans (Leads.step (.retry allowed) (.refl _))
      cases may : op.mayAttempt .retry (op.primary r.candidates r).2.2 with
      | false => exact ⟨_, entered, ended_of_mayAttempt may, rfl⟩
      | true =>
        obtain ⟨e, steps, ended, run⟩ := op.laterRounds_ends _ r.now _ may
        exact ⟨e, Relation.ReflTransGen.trans entered steps, ended, run⟩

def beginning (network : Network ω α) (limits : Limits) (now : Nat) : Operation ω α :=
  ⟨network, limits, now + limits.operationTimeout⟩

theorem run_steps (network : Network ω α) (limits : Limits) (goal : Goal α) (nodes : List NodeAddress)
    (world : ω) (now : Nat) (signal : StopSignal) :
    ∃ e, (beginning network limits now).Steps
        (.start (.start (Candidate.ofAddresses nodes) goal world now signal)) e ∧
      (nodes ≠ [] → goal.minCandidates ≤ nodes.length → (beginning network limits now).Ended e) ∧
      e.run = run network limits goal nodes world now signal := by
  simp only [run]
  split
  · rename_i few
    refine ⟨_, .refl, fun some enough => ?_, rfl⟩
    simp [some, Nat.not_lt.mpr enough] at few
  · obtain ⟨e, steps, ended, run⟩ := (beginning network limits now).drive_steps
      (.start (Candidate.ofAddresses nodes) goal world now signal)
    exact ⟨e, steps, fun _ _ => ended, run⟩

end Operation
end ReplicaRing
