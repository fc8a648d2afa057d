import ReplicaRing.Proofs.Client.Blame
import ReplicaRing.Proofs.Operation.Backoff

/-! Backoff and the last chance. Whether to pause is decided by the end of an operation, whether to go on by the last
time for an attempt, which is earlier by the least time that a call is worth; so a pause may use up what is left. -/
namespace ReplicaRing

variable {ω α σ : Type}

/-- How a pause that began at `started` ended, and what came after it: a stop ended it and the run, an attempt followed
at once, or it was too late for one. -/
inductive Pause (timers : Timers) (limits : Limits) (deadline : Nat) (r : Run ω α) (started ended : Nat) :
    List (Event α) → Prop
  | stopped (came : r.signal = some ended) (during : started < ended) (last : r.now = ended) :
      Pause timers limits deadline r started ended []
  | resumed {a rest} (lasts : ended = timers.wake started limits.retryDelay)
      (early : ended + limits.minimumTimeout < deadline) (next : a.started = ended) :
      Pause timers limits deadline r started ended (.attempt a :: rest)
  | outlasted (lasts : ended = timers.wake started limits.retryDelay)
      (late : deadline ≤ ended + limits.minimumTimeout) (last : r.now = ended) :
      Pause timers limits deadline r started ended []

namespace Operation

variable {network : Network ω α} {limits : Limits} {now : Nat} {r : Run ω α} {before after : List (Event α)}
  {started ended : Nat}

theorem Rests.pause (rests : (beginning network limits now).Rests r)
    (paused : r.history = before ++ .pause started ended :: after) :
    (beginning network limits now).Affords started ∧
      Pause network.timers limits (now + limits.operationTimeout) r started ended after := by
  rcases rests with resumes | ⟨earlier, time, woken, last⟩
  · obtain ⟨affords, lasts, a, rest, rfl, next, early⟩ := resumes before started ended after paused
    exact ⟨affords, .resumed lasts early next⟩
  rcases split_concat (last.history.symm.trans paused) with ⟨-, same, rfl⟩ | ⟨later, rfl, was⟩
  · cases same
    rcases last.cause with ⟨came, during⟩ | ⟨lasts, late⟩
    · exact ⟨last.affords, .stopped came during last.now⟩
    · exact ⟨last.affords, .outlasted lasts late last.now⟩
  · obtain ⟨affords, lasts, a, rest, rfl, next, early⟩ := last.resumes before started ended later was
    exact ⟨affords, .resumed lasts early next⟩

theorem Affords.wakes_early (affords : (beginning network limits now).Affords started)
    (short : limits.minimumTimeout + network.timers.tick ≤ 3 * limits.retryDelay) :
    network.timers.wake started limits.retryDelay + limits.minimumTimeout < now + limits.operationTimeout := by
  have attempt : started + limits.minimumTimeout < now + limits.operationTimeout := affords.attempt
  have pauses : 4 * limits.retryDelay ≤ now + limits.operationTimeout - started := affords.pauses
  have woken := network.timers.ring_lt (started + network.timers.sleepSpan limits.retryDelay)
  have span := network.timers.sleepSpan_le limits.retryDelay
  rw [Timers.wake]
  omega

end Operation

namespace Client

/-- Backoff and the last chance. Every pause of an operation begins when another attempt may be made, as the goal is not
reached, no stop has come and more than the least time is left, and four pauses would fit before the end. Unless a stop
ends it, an attempt is made at once after it if more than the least time is left as it ends; otherwise the operation is
over with it. That much is always left where the least time and a tick of the timers are no more than three pauses. -/
theorem operate_backoff (c : Client) (limits : Limits) (goal : Goal α) (key : String) (call : Primitive σ α)
    (m : Moment σ) :
    let r := c.operate limits goal key call m
    let deadline := m.now + limits.operationTimeout
    let op : Operation (Surroundings σ) α := ⟨⟨m.timers, fun world => world.table.isDisabled, call⟩, limits, deadline⟩
    let world : Surroundings σ := ⟨(c.table.lookup (c.table.hashKey key)).2, m.outside⟩
    let signal := if c.stopped then some m.now else m.signal
    ∀ before started ended after, r.history = before ++ .pause started ended :: after →
      (∃ round, round ≠ .primary ∧ op.GoesOn goal (world, signal) before round started) ∧
      started + limits.minimumTimeout < deadline ∧ 4 * limits.retryDelay ≤ deadline - started ∧
      Pause m.timers limits deadline r started ended after ∧
      (limits.minimumTimeout + m.timers.tick ≤ 3 * limits.retryDelay →
        m.timers.wake started limits.retryDelay + limits.minimumTimeout < deadline) := by
  intro r deadline op world signal before started ended after paused
  have rests : (Operation.beginning op.network limits m.now).Rests r := Operation.run_rests ..
  obtain ⟨affords, pause⟩ := rests.pause paused
  exact ⟨Operation.run_goesOn paused, affords.attempt, affords.pauses, pause, affords.wakes_early⟩

/-- Where a node fails that may recover, the first pause is a quarter of a second. -/
theorem quarter_resumed :
    let m : Moment Unit := ⟨.prompt, (), 0, none⟩
    let limits := ClientConfig.limitsForReads {}
    let r := (twoNodes {} default_valid false).get unreachable "a" none m
    r.history = r.history.take 2 ++ .pause 0 250000000 :: r.history.drop 3 ∧
      limits.minimumTimeout + m.timers.tick ≤ 3 * limits.retryDelay ∧
      Pause .prompt limits (0 + limits.operationTimeout) r 0 250000000 (r.history.drop 3) := by
  intro m limits r
  have paused : r.history = r.history.take 2 ++ .pause 0 250000000 :: r.history.drop 3 := by
    simp only [r, get, twoNodes_operate]
    decide +kernel
  obtain ⟨-, -, -, pause, -⟩ := operate_backoff (twoNodes {} default_valid false) limits (.read none) "a"
    (unreachable.get (.ofText "a") none) m _ _ _ _ paused
  exact ⟨paused, by decide, pause⟩

def hasty : ClientConfig where
  call := { minimumTimeout := .ofMillis 1000 }
  operation := { getTimeout := .ofMillis 1100, retryDelay := .ofMillis 10 }

theorem hasty_valid : hasty.validate = .ok () := rfl

/-- Nodes that cannot be reached at first, which shows after a while, and have all entries later on. -/
def recovering : Accessor Unit :=
  let reply {α : Type} (value : α) : Primitive Unit α := fun world context =>
    if context.started = 0 then
      let ended := 95 * nanosPerMilli
      ⟨world, ended, world, false, some (.failure (context.failure ended (.transport "oops")))⟩
    else ⟨world, 0, world, false, some (.success value)⟩
  ⟨fun _ _ => reply ⟨#[1]⟩, fun _ => reply 1, fun key => reply ⟨key, 1, false, 0⟩,
    fun _ _ _ _ => reply ⟨[], none⟩, fun _ => reply ()⟩

/-- When the enabled node fails, 1005 milliseconds are left, which is enough for another call; after a pause of ten it
is too late, for that node as for the disabled one, which was never asked. No one stopped the operation. -/
theorem pause_spends_last_chance :
    let limits := hasty.limitsForReads
    let r := (twoNodes hasty hasty_valid true).get recovering "a" none ⟨.prompt, (), 0, none⟩
    let began := 95 * nanosPerMilli
    let ended := 105 * nanosPerMilli
    r.attempts.map (fun a => (a.node.address.port, a.started, a.ended)) = [(1, 0, began)] ∧
      r.history.drop 1 = [.pause began ended] ∧ began + limits.minimumTimeout < limits.operationTimeout ∧
      limits.operationTimeout ≤ ended + limits.minimumTimeout ∧ r.isStopped = false ∧ r.goal.succeeded = false ∧
      r.outcomes ⟨1, ⟨"10.0.0.1", 2⟩⟩ = [] ∧ ⟨1, ⟨"10.0.0.1", 2⟩⟩ ∈ r.candidates := by
  intro limits r began ended
  simp only [r, get, twoNodes_operate]
  decide +kernel

end Client
end ReplicaRing
