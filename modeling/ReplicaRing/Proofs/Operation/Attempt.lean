import ReplicaRing.Operation.Run

/-! What each operation on a run does to it. An attempt takes time and enters the history; filing its
result moves the node between the lists of the run and takes no time; a pause only takes time. -/
namespace ReplicaRing

namespace Timers

variable (t : Timers)

theorem ring_mono {a b : Nat} (h : a ≤ b) : t.ring a ≤ t.ring b := by
  rw [ring, ring]
  exact Nat.mul_le_mul_right _ (Nat.div_le_div_right (by omega))

theorem wake_le_ring {now span time : Nat} (h : now + span ≤ time) : t.wake now span ≤ t.ring time := by
  have shorter := t.sleepSpan_le span
  exact t.ring_mono (by omega)

end Timers

namespace Ending

variable {ω α : Type} (timers : Timers) (context : CallContext) (signal : StopSignal)

theorem withoutReply_ended_le (world : ω) :
    (withoutReply (α := α) timers context world signal).ended ≤ timers.ring context.deadline := by
  have begun : context.started ≤ timers.ring context.deadline :=
    Nat.le_trans (Nat.le_add_right _ _) (timers.le_ring _)
  simp only [withoutReply]
  split
  · rename_i time came
    have early := (Option.filter_eq_some_iff.mp came).2
    exact Nat.max_le.mpr ⟨begun, of_decide_eq_true early⟩
  · exact Nat.le_refl _

theorem ofAnswer_ended_le (answer : Answer ω α) :
    (ofAnswer timers context signal answer).ended ≤ timers.ring context.deadline := by
  simp only [ofAnswer]
  split
  · exact withoutReply_ended_le ..
  · rename_i intime
    have due : context.started + answer.delay ≤ timers.ring context.deadline := by
      simp only [not_or, Nat.not_lt] at intime
      exact intime.1
    cases answer.reply with
    | some result => exact due
    | none =>
      dsimp only
      split
      · exact due
      · exact withoutReply_ended_le ..

end Ending

def Attempt.FromCall {ω α : Type} (network : Network ω α) (limits : Limits) (a : Attempt α) : Prop :=
  a.called = true ∧ ∃ world signal,
    let context : CallContext := ⟨a.node.address, a.started, a.allotted, limits.excerptLength⟩
    let e := Ending.ofAnswer network.timers context signal (network.call world context)
    a.result = e.result ∧ a.ended = e.ended

namespace Operation

variable {ω α : Type} (op : Operation ω α) (round : Round) (node : Candidate) (r : Run ω α)

def logged : Attempt α :=
  ⟨node, round, r.now, op.allotted r, decide (op.limits.minimumTimeout ≤ op.allotted r),
    (op.attempt round node r).1, (op.attempt round node r).2.now⟩

/-- An attempt takes time and is logged; what the run has filed stays. -/
theorem attempt_eq : (op.attempt round node r).2 =
    { r with
      now := (op.attempt round node r).2.now
      signal := (op.attempt round node r).2.signal
      world := (op.attempt round node r).2.world
      history := r.history ++ [.attempt (op.logged round node r)] } := by
  simp only [logged, attempt]
  split
  · rename_i short
    simp [Nat.not_le.mpr short]
  · rename_i enough
    simp [Nat.not_lt.mp enough]

@[simp] theorem attempts_attempt :
    (op.attempt round node r).2.attempts = r.attempts ++ [op.logged round node r] := by
  have logs := congrArg Run.history (op.attempt_eq round node r)
  simp [Run.attempts, logs]

@[simp] theorem attempt_candidates : (op.attempt round node r).2.candidates = r.candidates := by
  rw [attempt_eq]

@[simp] theorem attempt_goal : (op.attempt round node r).2.goal = r.goal := by
  rw [attempt_eq]

@[simp] theorem attempt_retries : (op.attempt round node r).2.retries = r.retries := by
  rw [attempt_eq]

@[simp] theorem attempt_failed : (op.attempt round node r).2.failed = r.failed := by
  rw [attempt_eq]

@[simp] theorem attempt_missing : (op.attempt round node r).2.missing = r.missing := by
  rw [attempt_eq]

theorem mayAttempt_iff : op.mayAttempt round r = true ↔ r.isStopped = false ∧
    r.goal.isComplete round = false ∧ r.now + op.limits.minimumTimeout < op.deadline := by
  simp [mayAttempt, Run.isOver, and_assoc]

theorem logged_fromCall (enough : op.limits.minimumTimeout ≤ op.allotted r) :
    (op.logged round node r).FromCall op.network op.limits := by
  refine ⟨decide_eq_true enough, r.world, r.signal, ?_⟩
  simp only [logged, attempt, Nat.not_lt.mpr enough, ↓reduceIte, and_self]

theorem attempt_now_le (begun : r.now ≤ op.deadline) :
    (op.attempt round node r).2.now ≤ op.network.timers.ring op.deadline := by
  simp only [attempt]
  split
  · exact Nat.le_trans begun (op.network.timers.le_ring _)
  · refine Nat.le_trans (Ending.ofAnswer_ended_le ..) (op.network.timers.ring_mono ?_)
    have short : op.allotted r ≤ op.deadline - r.now := Nat.min_le_left _ _
    simp only [CallContext.deadline]
    omega

theorem file_eq (result : CallResult α) : op.file node result r =
    { r with
      goal := (op.file node result r).goal
      retries := (op.file node result r).retries
      failed := (op.file node result r).failed
      missing := (op.file node result r).missing } := by
  cases result with
  | success value => rfl
  | missing => rfl
  | failure f => simp only [file]; split <;> rfl

@[simp] theorem attempts_file (result : CallResult α) :
    (op.file node result r).attempts = r.attempts := by
  rw [file_eq]; rfl

@[simp] theorem file_now (result : CallResult α) : (op.file node result r).now = r.now := by
  rw [file_eq]

@[simp] theorem file_candidates (result : CallResult α) :
    (op.file node result r).candidates = r.candidates := by
  rw [file_eq]

section Refile

variable (kept rest : List NodeFailure) (node : NodeFailure) (result : CallResult α)

theorem refile_eq : (refile kept node rest result r).2 =
    { r with
      goal := (refile kept node rest result r).2.goal
      retries := (refile kept node rest result r).2.retries
      failed := (refile kept node rest result r).2.failed
      missing := (refile kept node rest result r).2.missing } := by
  cases result with
  | success value => rfl
  | missing => rfl
  | failure f => simp only [refile]; split <;> rfl

@[simp] theorem attempts_refile : (refile kept node rest result r).2.attempts = r.attempts := by
  rw [refile_eq]; rfl

@[simp] theorem refile_now : (refile kept node rest result r).2.now = r.now := by
  rw [refile_eq]

@[simp] theorem refile_candidates :
    (refile kept node rest result r).2.candidates = r.candidates := by
  rw [refile_eq]

/-- The nodes that come after a failed one keep their place. -/
theorem refile_retries :
    (refile kept node rest result r).2.retries = (refile kept node rest result r).1 ++ rest := by
  cases result with
  | success value => rfl
  | missing => rfl
  | failure f => simp only [refile]; split <;> simp

end Refile

variable (roundStart : Nat)

theorem pause_eq : (op.pause roundStart r).2 =
    { r with
      now := (op.pause roundStart r).2.now
      history := (op.pause roundStart r).2.history } := by
  simp only [pause]
  split
  · rfl
  · split <;> rfl

@[simp] theorem attempts_pause : (op.pause roundStart r).2.attempts = r.attempts := by
  simp only [pause]
  split
  · rfl
  · split <;> simp [Run.attempts]

@[simp] theorem pause_candidates : (op.pause roundStart r).2.candidates = r.candidates := by
  rw [pause_eq]

@[simp] theorem pause_retries : (op.pause roundStart r).2.retries = r.retries := by
  rw [pause_eq]

@[simp] theorem result_pause : (op.pause roundStart r).2.result = r.result := by
  rw [pause_eq]; rfl

theorem pause_now_le (begun : r.now ≤ op.deadline) :
    (op.pause roundStart r).2.now ≤ op.network.timers.ring op.deadline := by
  have now_le : r.now ≤ op.network.timers.ring op.deadline :=
    Nat.le_trans begun (op.network.timers.le_ring _)
  simp only [pause]
  split
  · exact now_le
  · rename_i long
    have wake_le := op.network.timers.wake_le_ring
      (show r.now + op.limits.retryDelay ≤ op.deadline by omega)
    split
    · rename_i time came
      have early := of_decide_eq_true (Option.filter_eq_some_iff.mp came).2
      exact Nat.max_le.mpr ⟨now_le, Nat.le_trans early wake_le⟩
    · exact wake_le

/-- An interrupted pause leaves the run stopped. -/
theorem pause_isStopped (interrupted : (op.pause roundStart r).1 = false) :
    (op.pause roundStart r).2.isStopped = true := by
  revert interrupted
  simp only [pause]
  split
  · simp
  · split
    · rename_i time came
      have arrived := (Option.filter_eq_some_iff.mp came).1
      simp only [Run.isStopped, StopSignal.cameBy, arrived, Option.any_some, decide_eq_true_eq, forall_const]
      exact Nat.le_max_right r.now time
    · simp

end Operation
end ReplicaRing
