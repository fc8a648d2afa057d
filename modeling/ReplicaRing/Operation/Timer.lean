/-! Timers. Time has ticks, and a timer rings at the first tick at or after the time it is set for:
never early, and less than a tick late. Sleeps are timers too, and may have a greatest length. -/
namespace ReplicaRing

/-- Timers that ring at multiples of `tick` only. A sleep that is to last longer than `longestSleep`
is cut to it. -/
structure Timers where
  tick : Nat
  tick_pos : 0 < tick
  longestSleep : Option Nat

namespace Timers

/-- Timers without delay, as every time is a tick, and sleeps of any length. -/
def prompt : Timers := ⟨1, Nat.one_pos, none⟩

/-- When a timer that is set for a time rings. -/
def ring (t : Timers) (time : Nat) : Nat := (time + (t.tick - 1)) / t.tick * t.tick

/-- The span that a sleep is set for. -/
def sleepSpan (t : Timers) (span : Nat) : Nat := t.longestSleep.elim span (min span)

/-- When a sleep that begins now is over. -/
def wake (t : Timers) (now span : Nat) : Nat := t.ring (now + t.sleepSpan span)

@[simp] theorem ring_prompt (time : Nat) : prompt.ring time = time := by simp [ring, prompt]

theorem le_ring (t : Timers) (time : Nat) : time ≤ t.ring time := by
  have positive := t.tick_pos
  have split := Nat.div_add_mod' (time + (t.tick - 1)) t.tick
  have small := Nat.mod_lt (time + (t.tick - 1)) positive
  rw [ring]
  omega

theorem ring_lt (t : Timers) (time : Nat) : t.ring time < time + t.tick := by
  have positive := t.tick_pos
  have split := Nat.div_add_mod' (time + (t.tick - 1)) t.tick
  rw [ring]
  omega

theorem sleepSpan_le (t : Timers) (span : Nat) : t.sleepSpan span ≤ span := by
  rw [sleepSpan]
  cases t.longestSleep with
  | none => exact Nat.le_refl span
  | some longest => exact Nat.min_le_left span longest

@[simp] theorem wake_prompt (now span : Nat) : prompt.wake now span = now + span :=
  ring_prompt (now + span)

end Timers
end ReplicaRing
