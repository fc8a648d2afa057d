import ReplicaRing.Proofs.Operation.Stop

/-! What pauses lead to. A pause begins when another attempt may be made, and takes a quarter of the time that is left
at most; but attempts end earlier than that, so a pause may outlast the last time for one. What follows it in the
history is an attempt at once, or nothing. -/
namespace ReplicaRing

variable {ω α : Type}

namespace Operation

variable (op : Operation ω α)

/-- Time for another attempt is left, and for four pauses. -/
structure Affords (time : Nat) : Prop where
  attempt : time + op.limits.minimumTimeout < op.deadline
  pauses : 4 * op.limits.retryDelay ≤ op.deadline - time

def Resumes (history : List (Event α)) : Prop :=
  ∀ before started ended after, history = before ++ .pause started ended :: after →
    op.Affords started ∧ ended = op.network.timers.wake started op.limits.retryDelay ∧
      ∃ a rest, after = .attempt a :: rest ∧ a.started = ended ∧ ended + op.limits.minimumTimeout < op.deadline

/-- The run ends with a pause, which a stop cut short or which outlasted the last time for an attempt. -/
structure RestsAt (r : Run ω α) (before : List (Event α)) (started ended : Nat) : Prop where
  history : r.history = before ++ [.pause started ended]
  resumes : op.Resumes before
  affords : op.Affords started
  now : r.now = ended
  cause : r.signal = some ended ∧ started < ended ∨
    ended = op.network.timers.wake started op.limits.retryDelay ∧ op.deadline ≤ ended + op.limits.minimumTimeout

/-- Every pause led to an attempt at once, or else it was the last thing that the run did. -/
def Rests (r : Run ω α) : Prop := op.Resumes r.history ∨ ∃ before started ended, op.RestsAt r before started ended

variable {op} {history before : List (Event α)}

/-! ## Histories -/

theorem split_concat {before after : List (Event α)} {event last : Event α}
    (split : history ++ [last] = before ++ event :: after) :
    history = before ∧ last = event ∧ after = [] ∨
      ∃ later, after = later ++ [last] ∧ history = before ++ event :: later := by
  rcases List.eq_nil_or_concat after with rfl | ⟨later, final, rfl⟩
  · obtain ⟨same, one⟩ := List.append_inj' split rfl
    exact .inl ⟨same, List.singleton_inj.mp one, rfl⟩
  · rw [List.concat_eq_append, ← List.cons_append, ← List.append_assoc] at split
    obtain ⟨same, one⟩ := List.append_inj' split rfl
    obtain rfl := List.singleton_inj.mp one
    exact .inr ⟨later, List.concat_eq_append, same⟩

theorem Resumes.nil : op.Resumes [] := by
  intro before started ended after split
  simp at split

theorem Resumes.attempt (resumes : op.Resumes history) (a : Attempt α) :
    op.Resumes (history ++ [.attempt a]) := by
  intro before started ended after split
  rcases split_concat split with ⟨-, other, -⟩ | ⟨later, rfl, earlier⟩
  · cases other
  · obtain ⟨affords, lasts, b, rest, rfl, now, early⟩ := resumes before started ended later earlier
    exact ⟨affords, lasts, b, rest ++ [.attempt a], rfl, now, early⟩

theorem Resumes.pause {time : Nat} (resumes : op.Resumes history) (affords : op.Affords time) {a : Attempt α}
    (now : a.started = op.network.timers.wake time op.limits.retryDelay)
    (early : a.started + op.limits.minimumTimeout < op.deadline) :
    op.Resumes (history ++ [.pause time a.started] ++ [.attempt a]) := by
  intro before started ended after split
  rcases split_concat split with ⟨-, other, -⟩ | ⟨later, rfl, paused⟩
  · cases other
  rcases split_concat paused with ⟨-, same, rfl⟩ | ⟨between, rfl, earlier⟩
  · cases same
    exact ⟨affords, now, a, [], rfl, rfl, early⟩
  · obtain ⟨affords, lasts, b, rest, rfl, now, early⟩ := resumes before started ended between earlier
    exact ⟨affords, lasts, b, _, rfl, now, early⟩

/-! ## Rounds -/

variable (op)

theorem attempt_history (round : Round) (node : Candidate) (r : Run ω α) :
    (op.attempt round node r).2.history = r.history ++ [.attempt (op.logged round node r)] :=
  congrArg Run.history (op.attempt_eq round node r)

theorem tryFirst_resumes (round : Round) (node : Candidate) {r : Run ω α} (resumes : op.Resumes r.history) :
    op.Resumes (op.tryFirst round node r).2.history := by
  simp only [tryFirst]
  split
  · rw [file_eq]
    exact op.attempt_history round node r ▸ resumes.attempt _
  · exact resumes

theorem sweep_resumes (round : Round) (nodes : List Candidate) {r : Run ω α} (resumes : op.Resumes r.history) :
    op.Resumes (op.sweep round nodes r).2.history := by
  induction nodes generalizing r with
  | nil => exact resumes
  | cons node rest ih =>
    have tried := op.tryFirst_resumes round node resumes
    simp only [sweep]
    split
    · rename_i next goesOn
      rw [goesOn] at tried
      exact ih tried
    · rename_i last stops
      rwa [stops] at tried

theorem primary_resumes (nodes : List Candidate) {r : Run ω α} (resumes : op.Resumes r.history) :
    op.Resumes (op.primary nodes r).2.2.history := by
  induction nodes generalizing r with
  | nil => exact resumes
  | cons node rest ih =>
    have tried := op.tryFirst_resumes .primary node resumes
    simp only [primary]
    split
    · split
      · exact resumes
      · exact ih resumes
    · split
      · rename_i next goesOn
        rw [goesOn] at tried
        exact ih tried
      · rename_i last stops
        rwa [stops] at tried

theorem refile_history (kept due : List NodeFailure) (f : NodeFailure) (result : CallResult α) (r : Run ω α) :
    (refile kept f due result r).2.history = r.history := by
  rw [refile_eq]

theorem retryEach_resumes (round : Round) (kept due : List NodeFailure) {r : Run ω α}
    (resumes : op.Resumes r.history) : op.Resumes (op.retryEach round kept due r).2.history := by
  induction due generalizing kept r with
  | nil => exact resumes
  | cons f rest ih =>
    simp only [retryEach]
    split
    · have asked : op.Resumes (refile kept f rest (op.attempt round f.node r).1
          (op.attempt round f.node r).2).2.history := by
        rw [refile_history, attempt_history]
        exact resumes.attempt _
      split
      · exact asked
      · exact ih _ asked
    · exact resumes

inductive Paused (op : Operation ω α) (r : Run ω α) : Bool × Run ω α → Prop
  | skipped : Paused op r (true, r)
  | interrupted {woken} (affords : op.Affords r.now) (came : r.signal = some woken) (during : r.now < woken) :
      Paused op r (false, { r with now := woken, history := r.history ++ [.pause r.now woken] })
  | rested {woken} (affords : op.Affords r.now) (lasts : woken = op.network.timers.wake r.now op.limits.retryDelay)
      (waits : StopSignal.cameBy r.signal woken = false) :
      Paused op r (true, { r with now := woken, history := r.history ++ [.pause r.now woken] })

theorem pause_paused (roundStart : Nat) {round : Round} {r : Run ω α} (may : op.mayAttempt round r = true) :
    op.Paused r (op.pause roundStart r) := by
  obtain ⟨running, _, early⟩ := (op.mayAttempt_iff round r).mp may
  simp only [pause]
  split
  · exact .skipped
  · rename_i long
    have affords : op.Affords r.now := ⟨early, by omega⟩
    split
    · rename_i time came
      obtain ⟨arrives, -⟩ := Option.filter_eq_some_iff.mp came
      have during : r.now < time := StopSignal.lt_of_waits (arrives ▸ running)
      rw [Nat.max_eq_right (Nat.le_of_lt during)]
      exact .interrupted affords arrives during
    · rename_i none
      exact .rested affords rfl (StopSignal.waits_of_filter none)

/-- After a pause the first of the nodes that are due is asked, unless it is too late for that. -/
theorem retryEach_rests (round : Round) (kept : List NodeFailure) {due : List NodeFailure} (some : due ≠ [])
    {r : Run ω α} {time : Nat} (history : r.history = before ++ [.pause time r.now]) (resumes : op.Resumes before)
    (affords : op.Affords time) (lasts : r.now = op.network.timers.wake time op.limits.retryDelay)
    (running : r.isStopped = false) (incomplete : r.goal.isComplete round = false) :
    ((op.retryEach round kept due r).1 = true → op.Resumes (op.retryEach round kept due r).2.history) ∧
      op.Rests (op.retryEach round kept due r).2 := by
  obtain ⟨f, rest, rfl⟩ := List.exists_cons_of_ne_nil some
  simp only [retryEach]
  split
  · rename_i may
    obtain ⟨_, _, early⟩ := (op.mayAttempt_iff _ _).mp may
    have asked : op.Resumes (refile kept f rest (op.attempt round f.node r).1
        (op.attempt round f.node r).2).2.history := by
      rw [refile_history, attempt_history, history]
      exact resumes.pause affords (a := op.logged round f.node r) lasts early
    split
    · exact ⟨by simp, .inl asked⟩
    · have each := fun kept => op.retryEach_resumes round kept rest asked
      exact ⟨fun _ => each _, .inl (each _)⟩
  · rename_i mayNot
    have late : op.deadline ≤ r.now + op.limits.minimumTimeout := by
      rw [op.mayAttempt_iff] at mayNot
      exact Nat.le_of_not_lt fun early => mayNot ⟨running, incomplete, early⟩
    exact ⟨by simp, .inr ⟨before, time, r.now, history, resumes, affords, rfl, .inr ⟨lasts, late⟩⟩⟩

theorem retryRound_rests (round : Round) (roundStart : Nat) {r : Run ω α} (may : op.mayAttempt round r = true)
    (some : r.retries ≠ []) (resumes : op.Resumes r.history) :
    ((op.retryRound round roundStart r).1.isSome = true →
      op.Resumes (op.retryRound round roundStart r).2.history) ∧ op.Rests (op.retryRound round roundStart r).2 := by
  obtain ⟨running, incomplete, -⟩ := (op.mayAttempt_iff round r).mp may
  have paused := op.pause_paused roundStart may
  simp only [retryRound]
  generalize op.pause roundStart r = after at paused
  cases paused with
  | skipped =>
    have each := op.retryEach_resumes round [] r.retries resumes
    exact ⟨fun _ => each, .inl each⟩
  | @interrupted woken affords came during =>
    exact ⟨by simp, .inr ⟨r.history, r.now, woken, rfl, resumes, affords, rfl, .inl ⟨came, during⟩⟩⟩
  | @rested woken affords lasts waits =>
    obtain ⟨goesOn, rests⟩ := op.retryEach_rests round [] some
      (r := { r with now := woken, history := r.history ++ [.pause r.now woken] }) rfl resumes affords lasts waits
      incomplete
    exact ⟨fun more => goesOn (by simpa using more), rests⟩

theorem extraRounds_rests (left number roundStart : Nat) {r : Run ω α} (resumes : op.Resumes r.history) :
    op.Rests (op.extraRounds left number roundStart r) := by
  induction left generalizing number roundStart r with
  | zero => exact .inl resumes
  | succ left ih =>
    simp only [extraRounds]
    split
    · exact .inl resumes
    · rename_i more
      simp only [Bool.or_eq_true, List.isEmpty_iff, Bool.not_eq_true', not_or, Bool.not_eq_false] at more
      obtain ⟨goesOn, rests⟩ := op.retryRound_rests (.extra number) roundStart more.2 more.1 resumes
      split
      · rename_i began next again
        rw [again] at goesOn
        exact ih _ _ (goesOn rfl)
      · rename_i last stops
        rwa [stops] at rests

theorem laterRounds_rests (roundStart : Nat) (skipped : List Candidate) {r : Run ω α}
    (may : op.mayAttempt .retry r = true) (resumes : op.Resumes r.history) :
    op.Rests (op.laterRounds roundStart skipped r) := by
  have retried : ((if r.retries.isEmpty then (some roundStart, r)
      else op.retryRound .retry roundStart r).1.isSome = true → op.Resumes (if r.retries.isEmpty
        then (some roundStart, r) else op.retryRound .retry roundStart r).2.history) ∧
      op.Rests (if r.retries.isEmpty then (some roundStart, r) else op.retryRound .retry roundStart r).2 := by
    split
    · exact ⟨fun _ => resumes, .inl resumes⟩
    · rename_i more
      exact op.retryRound_rests .retry roundStart may (by simpa using more) resumes
  obtain ⟨goesOn, rests⟩ := retried
  simp only [laterRounds]
  split
  · rename_i last stops
    exact rests
  · rename_i began again
    rw [again] at goesOn
    have swept := op.sweep_resumes .disabled skipped (goesOn rfl)
    split
    · rename_i next sweeps
      rw [sweeps] at swept
      exact op.extraRounds_rests _ _ _ swept
    · rename_i last stops
      rw [stops] at swept
      exact .inl swept

theorem drive_rests {r : Run ω α} (none : r.history = []) : op.Rests (op.drive r) := by
  have first := op.primary_resumes r.candidates (none ▸ Resumes.nil)
  simp only [drive]
  split
  · rename_i goesOn
    simp only [Bool.and_eq_true] at goesOn
    exact op.laterRounds_rests _ _ goesOn.2 first
  · exact .inl first

theorem run_rests (network : Network ω α) (limits : Limits) (goal : Goal α) (nodes : List NodeAddress) (world : ω)
    (now : Nat) (signal : StopSignal) :
    (beginning network limits now).Rests (run network limits goal nodes world now signal) := by
  simp only [run]
  split
  · exact .inl .nil
  · exact drive_rests _ rfl

/-! ## Stages -/

/-- After what happened so far, neither the goal of the round is reached nor has a stop come. -/
structure GoesOn (op : Operation ω α) (goal : Goal α) (outside : ω × StopSignal) (before : List (Event α))
    (round : Round) (time : Nat) : Prop where
  incomplete : ((attemptsIn before).foldl (fun goal a => goal.record a.node a.result) goal).isComplete round = false
  running : ((attemptsIn before).foldl op.pass outside).2.cameBy time = false

variable {op} {s t : Stage ω α}

/-- A step adds nothing to the history, or an attempt, or a pause if another attempt may be made. -/
theorem Step.history_cases (step : op.Step s t) : t.run.history = s.run.history ∨
    (∃ a, t.run.history = s.run.history ++ [.attempt a]) ∨
      ∃ ended, t.run.history = s.run.history ++ [.pause s.run.now ended] ∧ op.mayAttempt s.round s.run = true ∧
        s.round ≠ .primary := by
  cases step with
  | leave | leaveAll | retry | disabled | extra => exact .inl rfl
  | pause may roundStart later =>
    have paused := op.pause_paused roundStart may
    generalize op.pause roundStart s.run = after at paused
    cases paused with
    | skipped => exact .inl rfl
    | interrupted | rested => exact .inr (.inr ⟨_, rfl, may, later⟩)
  | @first round skipped fresh node due r may sweeps =>
    refine .inr (.inl ⟨op.logged round node r, ?_⟩)
    rw [file_eq]
    exact op.attempt_history round node r
  | @again round skipped fresh f due r kept may retries =>
    refine .inr (.inl ⟨op.logged round f.node r, ?_⟩)
    rw [refile_history, attempt_history]

theorem Steps.paused (steps : op.Steps s t) (none : s.run.history = []) {started ended : Nat}
    {after : List (Event α)} (paused : t.run.history = before ++ .pause started ended :: after) :
    ∃ m, op.Steps s m ∧ op.mayAttempt m.round m.run = true ∧ m.round ≠ .primary ∧ m.run.history = before ∧
      m.run.now = started := by
  induction steps generalizing after with
  | refl => simp [none] at paused
  | @tail m t steps step ih =>
    rcases step.history_cases with same | ⟨a, more⟩ | ⟨ended', more, may, later⟩
    · exact ih (same ▸ paused)
    · rcases split_concat (more.symm.trans paused) with ⟨-, other, -⟩ | ⟨between, -, earlier⟩
      · cases other
      · exact ih earlier
    · rcases split_concat (more.symm.trans paused) with ⟨here, same, -⟩ | ⟨between, -, earlier⟩
      · cases same
        exact ⟨m, steps, may, later, here, rfl⟩
      · exact ih earlier

theorem run_goesOn {network : Network ω α} {limits : Limits} {goal : Goal α} {nodes : List NodeAddress} {world : ω}
    {now : Nat} {signal : StopSignal} {started ended : Nat} {after : List (Event α)}
    (paused : (run network limits goal nodes world now signal).history = before ++ .pause started ended :: after) :
    ∃ round, round ≠ .primary ∧ (beginning network limits now).GoesOn goal (world, signal) before round started := by
  obtain ⟨e, steps, -, ends⟩ := run_steps network limits goal nodes world now signal
  obtain ⟨m, reached, may, later, history, begins⟩ := Steps.paused steps rfl (ends ▸ paused)
  have led := Steps.keeps reached (fun s =>
      s.run.attempts.foldl (fun goal a => goal.record a.node a.result) goal = s.run.goal ∧
        s.run.attempts.foldl (beginning network limits now).pass (world, signal) = s.run.outside) ?_ ⟨rfl, rfl⟩
  · have attempts : m.run.attempts = attemptsIn before := by rw [← history]; rfl
    obtain ⟨running, incomplete, -⟩ := (mayAttempt_iff _ _ _).mp may
    rw [attempts] at led
    refine ⟨m.round, later, ?_, ?_⟩
    · rw [led.1]
      exact incomplete
    · rw [led.2, ← begins]
      exact running
  · rintro s t step ⟨recorded, led⟩
    refine ⟨?_, step.outside led⟩
    rcases step.attempts with ⟨same, goal, -⟩ | ⟨a, -, more, goal, -⟩
    · rw [same, goal, recorded]
    · rw [more, List.foldl_append, recorded, goal, List.foldl_cons, List.foldl_nil]

end Operation
end ReplicaRing
