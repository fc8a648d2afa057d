import ReplicaRing.Proofs.Operation.Deadline
import ReplicaRing.Proofs.Operation.History

/-! The stop signal. Until it comes, calls and pauses run their course. It ends the one that is under way,
and nothing begins after it: so an operation is over as soon as the signal comes, and keeps what it has. -/
namespace ReplicaRing

variable {ω α : Type}

deriving instance DecidableEq for Attempt, Event

namespace StopSignal

variable {signal : StopSignal} {now time : Nat}

theorem lt_of_waits (waits : StopSignal.cameBy (some time) now = false) : now < time := by
  simpa [cameBy] using waits

theorem waits_of_le {earlier : Nat} (before : earlier ≤ time) (waits : signal.cameBy time = false) :
    signal.cameBy earlier = false := by
  cases signal with
  | none => rfl
  | some came => simpa [cameBy] using Nat.lt_of_le_of_lt before (lt_of_waits waits)

theorem waits_of_filter (none : signal.filter (· ≤ time) = none) : signal.cameBy time = false := by
  cases signal with
  | none => rfl
  | some came => simpa [cameBy, Option.filter_eq_none_iff] using none

end StopSignal

/-- When a call would end if there were no signal but the one that its node may give. -/
def Ending.naturally (timers : Timers) (context : CallContext) (answer : Answer ω α) : Nat :=
  (ofAnswer timers context none answer).ended

/-- How a call that begins before the signal comes to its end: its node replies, its timer rings, the
signal comes while it goes on, or it is its node that gives the signal. -/
inductive Ending.Course (timers : Timers) (context : CallContext) (signal : StopSignal) (answer : Answer ω α)
    (e : Ending ω α) : Prop
  | replied (reply : answer.reply = some e.result) (ended : e.ended = context.started + answer.delay)
      (same : e.signal = signal) (waits : signal.cameBy e.ended = false)
  | expired (result : e.result = .failure (context.failure e.ended .timeout))
      (ended : e.ended = timers.ring context.deadline) (same : e.signal = signal)
      (waits : signal.cameBy e.ended = false)
  | cut (result : e.result = .failure (context.failure e.ended .interrupted)) (same : e.signal = signal)
      (came : signal = some e.ended) (goesOn : e.ended ≤ naturally timers context answer)
  | given (stops : answer.stops = true) (ended : e.ended = context.started + answer.delay)
      (signals : e.signal = some e.ended) (waits : signal.cameBy e.ended = false)

namespace Ending

variable (timers : Timers) (context : CallContext) {signal : StopSignal} (answer : Answer ω α)

/-- With a signal that comes in time, a call that is left without a reply ends with it. -/
theorem withoutReply_came {time : Nat} (late : context.started ≤ time)
    (early : time ≤ timers.ring context.deadline) (world : ω) :
    withoutReply (α := α) timers context world (some time) =
      ⟨time, world, some time, .failure (context.failure time .interrupted)⟩ := by
  have came : (some time).filter (· ≤ timers.ring context.deadline) = some time :=
    Option.filter_eq_some_iff.mpr ⟨rfl, decide_eq_true early⟩
  simp only [withoutReply, came, Nat.max_eq_right late]

/-- Nothing ends a call before both its node acts and its timer rings. -/
theorem le_naturally : min (context.started + answer.delay) (timers.ring context.deadline) ≤
    naturally timers context answer := by
  simp only [naturally, ofAnswer]
  split
  · exact Nat.min_le_right _ _
  · rename_i intime
    rw [not_or, Nat.not_lt] at intime
    cases answer.reply with
    | some result => exact Nat.min_le_left _ _
    | none =>
      dsimp only
      split
      · exact Nat.min_le_left _ _
      · cases answer.stops with
        | false => exact Nat.min_le_right _ _
        | true =>
          rw [if_pos rfl, withoutReply_came timers context (Nat.le_add_right ..) intime.1]
          exact Nat.min_le_left _ _

theorem naturally_of_silent (silent : answer.reply = none) (quiet : answer.stops = false) :
    naturally timers context answer = timers.ring context.deadline := by
  simp only [naturally, ofAnswer, silent, quiet, Bool.false_eq_true, ↓reduceIte]
  split
  · rfl
  · split
    · rename_i last
      exact last
    · rfl

theorem withoutReply_course (running : signal.cameBy context.started = false)
    (goesOn : ∀ time, signal = some time → time ≤ timers.ring context.deadline →
      time ≤ naturally timers context answer) (world : ω) :
    Course timers context signal answer (withoutReply timers context world signal) := by
  simp only [withoutReply]
  split
  · rename_i time came
    obtain ⟨rfl, early⟩ := Option.filter_eq_some_iff.mp came
    rw [Nat.max_eq_right (Nat.le_of_lt (StopSignal.lt_of_waits running))]
    exact .cut rfl rfl rfl (goesOn time rfl (of_decide_eq_true early))
  · rename_i none
    exact .expired rfl rfl rfl (StopSignal.waits_of_filter none)

theorem ofAnswer_course (running : signal.cameBy context.started = false) :
    Course timers context signal answer (ofAnswer timers context signal answer) := by
  simp only [ofAnswer]
  split
  · rename_i ends
    refine withoutReply_course timers context answer running (fun time came early => ?_) answer.accepted
    refine Nat.le_trans (Nat.le_min.mpr ⟨?_, early⟩) (le_naturally timers context answer)
    rcases ends with rings | first
    · exact Nat.le_trans early (Nat.le_of_lt rings)
    · rw [came] at first
      exact of_decide_eq_true first
  · rename_i intime
    rw [not_or, Nat.not_lt, Bool.not_eq_true] at intime
    obtain ⟨due, waits⟩ := intime
    cases stops : answer.stops with
    | true =>
      cases reply : answer.reply with
      | some result => exact .given stops rfl rfl waits
      | none =>
        simp only [↓reduceIte]
        split
        · exact .given stops rfl rfl waits
        · -- The signal that the node gives ends its own call, if it is left without a reply.
          rw [withoutReply_came timers context (Nat.le_add_right ..) due]
          exact .given stops rfl rfl waits
    | false =>
      cases reply : answer.reply with
      | some result => exact .replied reply rfl rfl waits
      | none =>
        simp only [Bool.false_eq_true, ↓reduceIte]
        split
        · rename_i last
          exact .expired rfl last rfl waits
        · refine withoutReply_course timers context answer running (fun time _ early => ?_) answer.done
          exact naturally_of_silent timers context answer reply stops ▸ early

end Ending

/-- No signal ends the attempt: too little time was left for a call, the node replied, or its time was over. -/
inductive Attempt.RunsOut (op : Operation ω α) (world : ω) (a : Attempt α) : Prop
  | short (called : a.called = false) (result : a.result = .failure ((op.context a).failure a.ended .timeout))
      (ended : a.ended = a.started)
  | replied (called : a.called = true) (reply : (op.answer world a).reply = some a.result)
      (ended : a.ended = a.started + (op.answer world a).delay)
  | expired (called : a.called = true) (result : a.result = .failure ((op.context a).failure a.ended .timeout))
      (ended : a.ended = op.network.timers.ring (op.context a).deadline)

namespace Event

def started : Event α → Nat
  | attempt a => a.started
  | pause started _ => started

def ended : Event α → Nat
  | attempt a => a.ended
  | pause _ ended => ended

def RunsOut (op : Operation ω α) (world : ω) : Event α → Prop
  | attempt a => a.RunsOut op world
  | pause started ended => ended = op.network.timers.wake started op.limits.retryDelay

def IsCut (op : Operation ω α) (world : ω) : Event α → Prop
  | attempt a => a.called = true ∧ a.result = .failure ((op.context a).failure a.ended .interrupted) ∧
      a.ended ≤ Ending.naturally op.network.timers (op.context a) (op.answer world a)
  | pause started ended => ended ≤ op.network.timers.wake started op.limits.retryDelay

variable {op : Operation ω α} {world : ω}

theorem RunsOut.started_le {event : Event α} (course : event.RunsOut op world) : event.started ≤ event.ended := by
  cases event with
  | attempt a =>
    cases course with
    | short called result ended => exact Nat.le_of_eq ended.symm
    | replied called reply ended => exact Nat.le.intro ended.symm
    | expired called result ended =>
      exact Nat.le_trans (Nat.le_add_right _ _) (Nat.le_trans (Timers.le_ring _ _) (Nat.le_of_eq ended.symm))
  | pause started ended =>
    exact Nat.le_trans (Nat.le_add_right _ _) (Nat.le_trans (Timers.le_ring _ _) (Nat.le_of_eq course.symm))

end Event

structure Run.Adds (r next : Run ω α) (event : Event α) : Prop where
  running : r.isStopped = false
  history : next.history = r.history ++ [event]
  started : event.started = r.now
  now : next.now = event.ended

/-- What may happen next in a run: nothing that takes time; an event that runs its course; one that is cut
by the signal; or a call to a node that gives the signal. -/
inductive Run.Ticks (op : Operation ω α) (r next : Run ω α) : Prop
  | idle (history : next.history = r.history) (now : next.now = r.now) (signal : next.signal = r.signal)
  | passes {event} (adds : r.Adds next event) (course : event.RunsOut op r.world) (signal : next.signal = r.signal)
      (waits : r.signal.cameBy event.ended = false)
  | cut {event} (adds : r.Adds next event) (cut : event.IsCut op r.world) (signal : next.signal = r.signal)
      (came : r.signal = some event.ended)
  | given {a} (adds : r.Adds next (.attempt a)) (called : a.called = true)
      (stops : (op.answer r.world a).stops = true) (ended : a.ended = a.started + (op.answer r.world a).delay)
      (signals : next.signal = some a.ended) (waits : r.signal.cameBy a.ended = false)

namespace Run

variable {op : Operation ω α} {r next after : Run ω α}

theorem Adds.of_same {event : Event α} (adds : r.Adds next event) (history : after.history = next.history)
    (now : after.now = next.now) : r.Adds after event :=
  ⟨adds.running, history.trans adds.history, adds.started, now.trans adds.now⟩

theorem Ticks.of_same (ticks : r.Ticks op next) (history : after.history = next.history)
    (now : after.now = next.now) (signal : after.signal = next.signal) : r.Ticks op after := by
  cases ticks with
  | idle recorded time same => exact .idle (history.trans recorded) (now.trans time) (signal.trans same)
  | passes adds course same waits => exact .passes (adds.of_same history now) course (signal.trans same) waits
  | cut adds cut same came => exact .cut (adds.of_same history now) cut (signal.trans same) came
  | given adds called stops ended signals waits =>
    exact .given (adds.of_same history now) called stops ended (signal.trans signals) waits

end Run

namespace Operation

variable {op : Operation ω α} {s t : Stage ω α}

theorem attempt_ticks (op : Operation ω α) (round : Round) (node : Candidate) {r : Run ω α}
    (running : r.isStopped = false) : r.Ticks op (op.attempt round node r).2 := by
  have adds : r.Adds (op.attempt round node r).2 (.attempt (op.logged round node r)) :=
    ⟨running, by rw [attempt_eq], rfl, rfl⟩
  by_cases short : op.allotted r < op.limits.minimumTimeout
  · have made : ((op.attempt round node r).2.now, (op.attempt round node r).2.signal, (op.attempt round node r).1) =
        (r.now, r.signal, .failure ((op.context (op.logged round node r)).failure r.now .timeout)) := by
      simp only [attempt, short, ↓reduceIte, context, logged]
    simp only [Prod.mk.injEq] at made
    obtain ⟨now, signal, result⟩ := made
    refine .passes adds (.short (decide_eq_false (Nat.not_le.mpr short)) ?_ now) signal ?_
    · simpa only [logged, now] using result
    · rw [Event.ended, show (op.logged round node r).ended = r.now from now]
      exact running
  · have made : (⟨(op.attempt round node r).2.now, (op.attempt round node r).2.world,
        (op.attempt round node r).2.signal, (op.attempt round node r).1⟩ : Ending ω α) = Ending.ofAnswer op.network.timers
            (op.context (op.logged round node r)) r.signal (op.answer r.world (op.logged round node r)) := by
      simp only [attempt, short, ↓reduceIte, context, answer, logged]
    have called : (op.logged round node r).called = true := decide_eq_true (Nat.not_lt.mp short)
    have course := Ending.ofAnswer_course op.network.timers (op.context (op.logged round node r))
      (op.answer r.world (op.logged round node r)) running
    rw [← made] at course
    cases course with
    | replied reply ended same waits => exact .passes adds (.replied called reply ended) same waits
    | expired result ended same waits => exact .passes adds (.expired called result ended) same waits
    | cut result same came goesOn => exact .cut adds ⟨called, result, goesOn⟩ same came
    | given stops ended signals waits => exact .given adds called stops ended signals waits

theorem pause_ticks (op : Operation ω α) (roundStart : Nat) {r : Run ω α} (running : r.isStopped = false) :
    r.Ticks op (op.pause roundStart r).2 := by
  simp only [pause]
  split
  · exact .idle rfl rfl rfl
  · split
    · rename_i time came
      obtain ⟨given, early⟩ := Option.filter_eq_some_iff.mp came
      have later : r.now < time := StopSignal.lt_of_waits (given ▸ running)
      rw [Nat.max_eq_right (Nat.le_of_lt later)]
      exact .cut (show r.Adds _ (.pause r.now time) from ⟨running, rfl, rfl, rfl⟩)
        (show time ≤ _ from of_decide_eq_true early) rfl given
    · rename_i none
      exact .passes (show r.Adds _ (.pause r.now (op.network.timers.wake r.now op.limits.retryDelay)) from
        ⟨running, rfl, rfl, rfl⟩) rfl rfl (StopSignal.waits_of_filter none)

theorem Step.ticks (step : op.Step s t) : s.run.Ticks op t.run := by
  cases step with
  | leave | leaveAll | retry | disabled | extra => exact .idle rfl rfl rfl
  | pause may roundStart => exact op.pause_ticks roundStart ((op.mayAttempt_iff _ _).mp may).1
  | @first round skipped fresh node due r may sweeps =>
    have running := ((op.mayAttempt_iff _ _).mp may).1
    refine (op.attempt_ticks round node running).of_same ?_ (op.file_now ..) ?_ <;> rw [file_eq]
  | @again round skipped fresh f due r kept may retries =>
    have running := ((op.mayAttempt_iff _ _).mp may).1
    refine (op.attempt_ticks round f.node running).of_same ?_ (refile_now ..) ?_ <;> rw [refile_eq]

end Operation

def attemptsIn (events : List (Event α)) : List (Attempt α) :=
  events.filterMap fun
    | .attempt a => some a
    | .pause _ _ => none

namespace Run

variable {op : Operation ω α} {now : Nat} {outside : ω × StopSignal} {r next : Run ω α}

structure Undisturbed (op : Operation ω α) (now : Nat) (outside : ω × StopSignal) (r : Run ω α) : Prop where
  led : r.attempts.foldl op.pass outside = r.outside
  signal : r.signal = outside.2
  running : r.isStopped = false
  began : now ≤ r.now
  ended : ∀ event ∈ r.history, event.ended ≤ r.now
  course : ∀ before event, before ++ [event] <+: r.history →
    event.RunsOut op ((attemptsIn before).foldl op.pass outside).1

/-- The signal has come: before the run began, with its last event, or from the node called last. -/
inductive Halts (op : Operation ω α) (now : Nat) (outside : ω × StopSignal) (r : Run ω α) : Prop
  | early (came : outside.2.cameBy now = true) (history : r.history = []) (at_ : r.now = now)
      (signal : r.signal = outside.2)
  | cut {past : Run ω α} {event} (before : past.Undisturbed op now outside) (adds : past.Adds r event)
      (cut : event.IsCut op past.world) (signal : r.signal = outside.2) (came : outside.2 = some event.ended)
  | given {past : Run ω α} {a} (before : past.Undisturbed op now outside) (adds : past.Adds r (.attempt a))
      (called : a.called = true) (stops : (op.answer past.world a).stops = true)
      (ended : a.ended = a.started + (op.answer past.world a).delay) (signal : r.signal = some a.ended)
      (waits : outside.2.cameBy a.ended = false)

theorem Halts.isStopped (halts : r.Halts op now outside) : r.isStopped = true := by
  cases halts with
  | early came history time signal => rw [Run.isStopped, time, signal, came]
  | cut before adds cut signal came => simp [Run.isStopped, adds.now, signal, came, StopSignal.cameBy]
  | given before adds called stops ended signal waits =>
    simp [Run.isStopped, adds.now, signal, StopSignal.cameBy, Event.ended]

/-- Nothing happens any more once the signal has come. -/
theorem Halts.ticks (halts : r.Halts op now outside) (ticks : r.Ticks op next) : next.Halts op now outside := by
  have stopped := halts.isStopped
  cases ticks with
  | idle history time signal =>
    cases halts with
    | early came none at_ same => exact .early came (history.trans none) (time.trans at_) (signal.trans same)
    | cut before adds cut same came => exact .cut before (adds.of_same history time) cut (signal.trans same) came
    | given before adds called stops ended same waits =>
      exact .given before (adds.of_same history time) called stops ended (signal.trans same) waits
  | passes adds | cut adds | given adds =>
    rw [adds.running] at stopped
    contradiction

theorem Undisturbed.ticks (h : r.Undisturbed op now outside) (ticks : r.Ticks op next)
    (led : next.attempts.foldl op.pass outside = next.outside) :
    next.Undisturbed op now outside ∨ next.Halts op now outside := by
  cases ticks with
  | idle history time signal =>
    refine .inl ⟨led, signal.trans h.signal, ?_, time ▸ h.began, history ▸ time ▸ h.ended, history ▸ h.course⟩
    rw [Run.isStopped, signal, time]
    exact h.running
  | @passes event adds course signal waits =>
    have started : r.now ≤ event.ended := adds.started ▸ course.started_le
    refine .inl ⟨led, signal.trans h.signal, ?_, ?_, ?_, ?_⟩
    · rw [Run.isStopped, signal, adds.now, waits]
    · exact Nat.le_trans h.began (adds.now ▸ started)
    · intro other member
      rw [adds.history, List.mem_append, List.mem_singleton] at member
      rcases member with earlier | rfl
      · exact Nat.le_trans (h.ended other earlier) (adds.now ▸ started)
      · exact Nat.le_of_eq adds.now.symm
    · intro before other made
      rw [adds.history, List.prefix_concat_iff] at made
      rcases made with whole | earlier
      · obtain ⟨rfl, one⟩ := List.append_inj' whole rfl
        obtain rfl := List.singleton_inj.mp one
        rw [show (attemptsIn r.history).foldl op.pass outside = r.outside from h.led]
        exact course
      · exact h.course before other earlier
  | cut adds cut signal came => exact .inr (.cut h adds cut (signal.trans h.signal) (h.signal.symm.trans came))
  | given adds called stops ended signals waits =>
    exact .inr (.given h adds called stops ended signals (h.signal ▸ waits))

/-- What the signal does to an event of a run: nothing, as it comes later, if at all; or it ends the event,
and the run with it, given from outside or by the node that is called. -/
inductive Heeds (op : Operation ω α) (outside : ω × StopSignal) (r : Run ω α) (before : List (Event α))
    (event : Event α) : Prop
  | passed (waits : outside.2.cameBy event.ended = false)
      (course : event.RunsOut op ((attemptsIn before).foldl op.pass outside).1)
  | cut (last : r.history = before ++ [event]) (now : r.now = event.ended) (came : outside.2 = some event.ended)
      (signal : r.signal = outside.2) (cut : event.IsCut op ((attemptsIn before).foldl op.pass outside).1)
  | given {a} (last : r.history = before ++ [event]) (now : r.now = event.ended)
      (waits : outside.2.cameBy event.ended = false) (signal : r.signal = some event.ended)
      (call : event = .attempt a) (called : a.called = true)
      (stops : (op.answer ((attemptsIn before).foldl op.pass outside).1 a).stops = true)

theorem Undisturbed.event {before : List (Event α)} {event : Event α} (h : r.Undisturbed op now outside)
    (made : before ++ [event] <+: r.history) :
    outside.2.cameBy event.started = false ∧ next.Heeds op outside before event := by
  have course := h.course before event made
  have waits : outside.2.cameBy event.ended = false :=
    StopSignal.waits_of_le (h.ended event (made.mem (by simp))) (h.signal ▸ h.running)
  exact ⟨StopSignal.waits_of_le course.started_le waits, .passed waits course⟩

theorem prompt (heeds : r.Undisturbed op now outside ∨ r.Halts op now outside) {time : Nat}
    (came : r.signal = some time) : r.now < time ∨ r.now = max now time := by
  rcases heeds with undisturbed | halts
  · have running := undisturbed.running
    rw [isStopped, came] at running
    exact .inl (StopSignal.lt_of_waits running)
  · refine .inr ?_
    cases halts with
    | early already none at_ signal =>
      rw [← signal, came] at already
      rw [at_, Nat.max_eq_left (of_decide_eq_true already)]
    | cut past adds cut signal given =>
      obtain rfl := Option.some.inj (came.symm.trans (signal.trans given))
      have running := past.running
      rw [isStopped, past.signal, given] at running
      rw [adds.now, Nat.max_eq_right (Nat.le_trans past.began (Nat.le_of_lt (StopSignal.lt_of_waits running)))]
    | given past adds called stops ended signal =>
      obtain rfl := Option.some.inj (came.symm.trans signal)
      have begun : now ≤ _ := Nat.le_trans past.began (Nat.le_of_eq adds.started.symm)
      rw [adds.now, Event.ended, Nat.max_eq_right (Nat.le_trans begun (Nat.le.intro ended.symm))]

end Run

namespace Operation

/-- At every stage the signal has not come, or nothing happens any more. -/
theorem Steps.heeds {op : Operation ω α} {s : Stage ω α} {candidates : List Candidate} {goal : Goal α} {world : ω}
    {now : Nat} {signal : StopSignal} (steps : op.Steps (.start (.start candidates goal world now signal)) s) :
    s.run.Undisturbed op now (world, signal) ∨ s.run.Halts op now (world, signal) := by
  have heeds := steps.keeps (fun s => s.run.attempts.foldl op.pass (world, signal) = s.run.outside ∧
      (s.run.Undisturbed op now (world, signal) ∨ s.run.Halts op now (world, signal))) ?_ ⟨rfl, ?_⟩
  · exact heeds.2
  · rintro s t step ⟨led, undisturbed | halts⟩
    · exact ⟨step.outside led, undisturbed.ticks step.ticks (step.outside led)⟩
    · exact ⟨step.outside led, .inr (halts.ticks step.ticks)⟩
  · cases came : signal.cameBy now with
    | true => exact .inr (.early came rfl rfl rfl)
    | false =>
      refine .inl ⟨rfl, rfl, came, Nat.le_refl _, nofun, fun before event made => ?_⟩
      simp [Stage.start, Run.start] at made

end Operation
end ReplicaRing
