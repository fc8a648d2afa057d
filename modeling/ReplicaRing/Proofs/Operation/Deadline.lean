import ReplicaRing.Proofs.Operation.Steps

/-! Deadlines of operations. No attempt begins too late to be worth making, none is given more time than
is left, and neither attempts nor pauses last beyond the deadline. -/
namespace ReplicaRing

variable {ω α : Type}

structure Attempt.Timely (op : Operation ω α) (a : Attempt α) : Prop where
  started : a.started + op.limits.minimumTimeout < op.deadline
  allotted : a.allotted ≤ min op.limits.callTimeout (op.deadline - a.started)
  called : op.limits.minimumTimeout ≤ op.limits.callTimeout →
    a.FromCall op.network op.limits ∧ op.limits.minimumTimeout ≤ a.allotted

structure Stage.Timely (op : Operation ω α) (s : Stage ω α) : Prop where
  now : s.run.now ≤ op.network.timers.ring op.deadline
  attempts : ∀ a ∈ s.run.attempts, a.Timely op

namespace Operation

variable {op : Operation ω α}

theorem logged_timely {round : Round} {r : Run ω α} (node : Candidate)
    (may : op.mayAttempt round r = true) : (op.logged round node r).Timely op := by
  obtain ⟨_, _, early⟩ := (op.mayAttempt_iff round r).mp may
  refine ⟨early, Nat.le_of_eq (Nat.min_comm _ _), fun fits => ?_⟩
  have enough : op.limits.minimumTimeout ≤ op.allotted r := Nat.le_min.mpr ⟨by omega, fits⟩
  exact ⟨op.logged_fromCall round node r enough, enough⟩

/-- With the check before an attempt, the attempt and what is filed after it are in time. -/
theorem attempt_timely {round : Round} {r : Run ω α} (node : Candidate)
    (may : op.mayAttempt round r = true) (timely : ∀ a ∈ r.attempts, a.Timely op) :
    (op.attempt round node r).2.now ≤ op.network.timers.ring op.deadline ∧
      ∀ a ∈ (op.attempt round node r).2.attempts, a.Timely op := by
  obtain ⟨_, _, early⟩ := (op.mayAttempt_iff round r).mp may
  refine ⟨op.attempt_now_le round node r (by omega), fun a made => ?_⟩
  rw [attempts_attempt, List.mem_append, List.mem_singleton] at made
  rcases made with before | rfl
  · exact timely a before
  · exact logged_timely node may

theorem Step.timely {s t : Stage ω α} (step : op.Step s t) (timely : s.Timely op) : t.Timely op := by
  cases step with
  | leave | leaveAll | retry | disabled | extra => exact ⟨timely.now, timely.attempts⟩
  | first may sweeps =>
    obtain ⟨now, attempts⟩ := attempt_timely _ may timely.attempts
    exact ⟨by simpa using now, by simpa using attempts⟩
  | again may retries =>
    obtain ⟨now, attempts⟩ := attempt_timely _ may timely.attempts
    exact ⟨by simpa using now, by simpa using attempts⟩
  | pause may roundStart =>
    obtain ⟨_, _, early⟩ := (op.mayAttempt_iff _ _).mp may
    exact ⟨op.pause_now_le _ roundStart (by omega), by simpa using timely.attempts⟩

theorem run_timely (network : Network ω α) (limits : Limits) (goal : Goal α)
    (nodes : List NodeAddress) (world : ω) (now : Nat) (signal : StopSignal) :
    (run network limits goal nodes world now signal).now ≤
        network.timers.ring (now + limits.operationTimeout) ∧
      ∀ a ∈ (run network limits goal nodes world now signal).attempts,
        a.Timely (beginning network limits now) := by
  obtain ⟨e, steps, _, ends⟩ := run_steps network limits goal nodes world now signal
  rw [← ends]
  have begins : now ≤ network.timers.ring (now + limits.operationTimeout) :=
    Nat.le_trans (Nat.le_add_right _ _) (network.timers.le_ring _)
  have timely := steps.keeps (·.Timely _) (fun _ _ => Step.timely) ⟨begins, fun _ none => nomatch none⟩
  exact ⟨timely.now, timely.attempts⟩

/-- With exact timers an operation is over by its deadline, pauses included. Every attempt begins before
the last time at which one is worth making, with no more time than a call may take or is left; and if
calls may take the least time that is worth it, every attempt is a call with that time at least. -/
theorem run_within_deadline (network : Network ω α) (exact : network.timers = .prompt) (limits : Limits)
    (goal : Goal α) (nodes : List NodeAddress) (world : ω) (now : Nat) (signal : StopSignal) :
    let r := run network limits goal nodes world now signal
    let deadline := now + limits.operationTimeout
    r.now ≤ deadline ∧
    (∀ a ∈ r.attempts, a.started + limits.minimumTimeout < deadline ∧
      a.allotted ≤ min limits.callTimeout (deadline - a.started)) ∧
    (limits.minimumTimeout ≤ limits.callTimeout →
      ∀ a ∈ r.attempts, a.FromCall network limits ∧ limits.minimumTimeout ≤ a.allotted) := by
  obtain ⟨ends, timely⟩ := run_timely network limits goal nodes world now signal
  rw [exact, Timers.ring_prompt] at ends
  exact ⟨ends, fun a made => ⟨(timely a made).started, (timely a made).allotted⟩,
    fun fits a made => (timely a made).called fits⟩

def silence (timers : Timers) : Network Unit Unit where
  timers := timers
  isDisabled _ _ := false
  call _ _ := ⟨(), 0, (), false, none⟩

/-- A silent node is called three times, from 0, 45 and 85 on, and a fourth call would come too late. -/
theorem silence_within_deadline :
    let r := run (silence .prompt) ⟨100, 40, 10, 5, true, 3, 500⟩ (.read none) [⟨"node", 1⟩] () 0 none
    r.attempts.map (fun a => (a.started, a.allotted)) = [(0, 40), (45, 40), (85, 15)] ∧ r.now ≤ 0 + 100 ∧
      ∀ a ∈ r.attempts, a.FromCall (silence .prompt) ⟨100, 40, 10, 5, true, 3, 500⟩ ∧ 10 ≤ a.allotted := by
  obtain ⟨ends, _, called⟩ := run_within_deadline (silence .prompt) rfl ⟨100, 40, 10, 5, true, 3, 500⟩
    (.read none) [⟨"node", 1⟩] () 0 none
  exact ⟨by decide, ends, called (by decide)⟩

end Operation
end ReplicaRing
