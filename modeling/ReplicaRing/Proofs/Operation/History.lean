import ReplicaRing.Proofs.Operation.Turns

/-! Attempts and the stages they are made at. What an operation goes by before an attempt is what came
of the attempts before it, and the world is the one they left; so what holds of the stages holds of every
attempt with those before it. -/
namespace ReplicaRing

variable {ω α : Type}

def outcomesOn (attempts : List (Attempt α)) (node : Candidate) : List (CallResult α) :=
  (attempts.filter (·.node = node)).map (·.result)

/-- What relates each entry to those before it relates them all. -/
theorem pairwise_of_prefixes {β : Type} {entries : List β} {related : β → β → Prop}
    (all : ∀ before a, before ++ [a] <+: entries → ∀ b ∈ before, related b a) : entries.Pairwise related := by
  refine List.pairwise_iff_getElem.mpr fun i j _ last earlier => ?_
  refine all (entries.take j) entries[j] ?_ entries[i] ?_
  · rw [List.take_append_getElem]
    exact List.take_prefix ..
  · exact List.mem_take_iff_getElem.mpr ⟨i, Nat.lt_min.mpr ⟨earlier, by omega⟩, rfl⟩

def Run.outside (r : Run ω α) : ω × StopSignal := (r.world, r.signal)

namespace Operation

def context (op : Operation ω α) (a : Attempt α) : CallContext :=
  ⟨a.node.address, a.started, a.allotted, op.limits.excerptLength⟩

def answer (op : Operation ω α) (world : ω) (a : Attempt α) : Answer ω α := op.network.call world (op.context a)

def pass (op : Operation ω α) (outside : ω × StopSignal) (a : Attempt α) : ω × StopSignal :=
  if a.called then
    let e := Ending.ofAnswer op.network.timers (op.context a) outside.2 (op.answer outside.1 a)
    (e.world, e.signal)
  else outside

/-- The attempts lead from one of their worlds to the next, and the world is one of these. -/
def Sees (op : Operation ω α) (outside : ω × StopSignal) (attempts : List (Attempt α)) (world : ω) : Prop :=
  ∃ before, before <+: attempts ∧ (before.foldl op.pass outside).1 = world

variable {op : Operation ω α} {s t : Stage ω α}

theorem attempt_outside (op : Operation ω α) (round : Round) (node : Candidate) (r : Run ω α) :
    (op.attempt round node r).2.outside = op.pass r.outside (op.logged round node r) := by
  simp only [attempt, pass, context, answer, logged, Run.outside]
  split
  · rename_i short
    simp [Nat.not_le.mpr short]
  · rename_i enough
    simp [Nat.not_lt.mp enough]

/-- The node that is asked next: one that is still to be tried, or the next of those that are due. -/
inductive Asks (op : Operation ω α) (s : Stage ω α) : Candidate → Prop
  | first {node fresh} (head : s.fresh = node :: fresh)
      (sweeps : s.round = .primary ∧ op.leavesOut node s.run = false ∨ s.round = .disabled) : Asks op s node
  | again {f kept due} (head : s.due = f :: due) (retries : s.run.retries = kept ++ f :: due) :
      Asks op s f.node

structure Makes (op : Operation ω α) (s : Stage ω α) (a : Attempt α) : Prop where
  may : op.mayAttempt s.round s.run = true
  asks : op.Asks s a.node
  logged : a = op.logged s.round a.node s.run

theorem Makes.round {a : Attempt α} (makes : op.Makes s a) : a.round = s.round :=
  congrArg Attempt.round makes.logged

/-- A step makes one attempt, and records what came of it, or none. -/
theorem Step.attempts (step : op.Step s t) :
    t.run.attempts = s.run.attempts ∧ t.run.goal = s.run.goal ∧ t.run.outside = s.run.outside ∨
      ∃ a, op.Makes s a ∧ t.run.attempts = s.run.attempts ++ [a] ∧
        t.run.goal = s.run.goal.record a.node a.result ∧ t.run.outside = op.pass s.run.outside a := by
  cases step with
  | leave | leaveAll | retry | disabled | extra => exact .inl ⟨rfl, rfl, rfl⟩
  | pause may roundStart =>
    refine .inl ⟨op.attempts_pause _ _, congrArg (·.goal) (op.result_pause s.run roundStart), ?_⟩
    rw [pause_eq]
    rfl
  | @first round skipped fresh node due r may sweeps =>
    refine .inr ⟨op.logged round node r, ⟨may, .first rfl sweeps, rfl⟩, by simp, by simp [logged], ?_⟩
    rw [file_eq]
    exact op.attempt_outside round node r
  | @again round skipped fresh f due r kept may retries =>
    refine .inr ⟨op.logged round f.node r, ⟨may, .again rfl retries, rfl⟩, by simp, by simp [logged], ?_⟩
    rw [refile_eq]
    exact op.attempt_outside round f.node r

theorem Step.outside {outside : ω × StopSignal} (step : op.Step s t)
    (led : s.run.attempts.foldl op.pass outside = s.run.outside) :
    t.run.attempts.foldl op.pass outside = t.run.outside := by
  rcases step.attempts with ⟨same, _, outer⟩ | ⟨a, _, more, _, outer⟩
  · rw [same, led, outer]
  · rw [more, List.foldl_append, led, outer, List.foldl_cons, List.foldl_nil]

theorem Step.attempts_prefix (step : op.Step s t) : s.run.attempts <+: t.run.attempts := by
  rcases step.attempts with ⟨same, _⟩ | ⟨a, _, more, _⟩
  · exact same ▸ List.prefix_refl _
  · exact more ▸ List.prefix_append _ _

theorem Steps.made (steps : op.Steps s t) (none : s.run.attempts = []) {before : List (Attempt α)}
    {a : Attempt α} (made : before ++ [a] <+: t.run.attempts) :
    ∃ m, op.Steps s m ∧ op.Makes m a ∧ m.run.attempts = before := by
  induction steps with
  | refl => simp [none] at made
  | @tail m t steps step ih =>
    rcases step.attempts with ⟨same, _⟩ | ⟨last, makes, more, _⟩
    · exact ih (same ▸ made)
    · rw [more, List.prefix_concat_iff] at made
      rcases made with whole | earlier
      · obtain ⟨rfl, one⟩ := List.append_inj' whole rfl
        rw [List.singleton_inj] at one
        exact ⟨m, steps, one ▸ makes, rfl⟩
      · exact ih earlier

theorem run_made {network : Network ω α} {limits : Limits} {goal : Goal α} {nodes : List NodeAddress}
    {world : ω} {now : Nat} {signal : StopSignal} {before : List (Attempt α)} {a : Attempt α}
    (made : before ++ [a] <+: (run network limits goal nodes world now signal).attempts) :
    ∃ m, (beginning network limits now).Steps
        (.start (.start (Candidate.ofAddresses nodes) goal world now signal)) m ∧
      (beginning network limits now).Makes m a ∧ m.run.attempts = before := by
  obtain ⟨e, steps, _, ends⟩ := run_steps network limits goal nodes world now signal
  exact steps.made rfl (ends ▸ made)

end Operation
end ReplicaRing
