import Mathlib.Data.List.MinMax
import ReplicaRing.Node.State

/-! The newest of a number of states, and the first of equally new ones. Taking states one by one, each
only if it is newer than the one at hand, ends with it. -/
namespace ReplicaRing.NodeState

/-- The earliest of the newest states. -/
def newest? (states : List NodeState) : Option NodeState := states.argmax (·.lastUpdated.toNat)

def renew (known s : NodeState) : NodeState := if s.lastUpdated ≤ known.lastUpdated then known else s

variable {states states' : List NodeState} {s known : NodeState}

@[simp] theorem newest?_nil : newest? [] = none := rfl

@[simp] theorem newest?_eq_none : newest? states = none ↔ states = [] := List.argmax_eq_none

theorem mem_of_newest? (newest : newest? states = some s) : s ∈ states := List.argmax_mem newest

theorem le_of_newest? (newest : newest? states = some s) (member : known ∈ states) :
    known.lastUpdated ≤ s.lastUpdated :=
  List.le_of_mem_argmax (f := fun s : NodeState => s.lastUpdated.toNat) member newest

theorem newest?_concat : newest? (states ++ [s]) =
    some (match newest? states with
      | some known => known.renew s
      | none => s) := by
  rw [newest?, List.argmax_concat]
  cases newest : states.argmax (·.lastUpdated.toNat) with
  | none => simp [newest?, newest]
  | some known =>
    simp only [newest?, newest, renew, UInt64.le_iff_toNat_le, ← Nat.not_lt, ite_not]
    split <;> rfl

theorem newest?_cons : newest? (s :: states) =
    some (match newest? states with
      | some later => if s.lastUpdated < later.lastUpdated then later else s
      | none => s) := by
  rw [newest?, List.argmax_cons]
  cases newest : states.argmax (·.lastUpdated.toNat) with
  | none => simp [newest?, newest]
  | some later =>
    simp only [newest?, newest, UInt64.lt_iff_toNat_lt]
    split <;> rfl

theorem newest?_cons_of_le (bound : ∀ s' ∈ states, s'.lastUpdated ≤ s.lastUpdated) :
    newest? (s :: states) = some s := by
  rw [newest?_cons]
  cases newest : newest? states with
  | none => rfl
  | some later => simp only [if_neg (UInt64.not_lt.mpr (bound later (mem_of_newest? newest)))]

theorem newest?_append_of_subset (again : ∀ s ∈ states', s ∈ states) : newest? (states ++ states') = newest? states := by
  induction states' using List.reverseRecOn with
  | nil => rw [List.append_nil]
  | append_singleton states' s ih =>
    obtain ⟨known, newest⟩ := Option.ne_none_iff_exists'.mp
      (mt newest?_eq_none.mp (List.ne_nil_of_mem (again s (by simp))))
    rw [← List.append_assoc, newest?_concat, ih fun s member => again s (List.mem_append_left _ member), newest]
    simp only [renew, if_pos (le_of_newest? newest (again s (by simp)))]

/-- Order and repetition do not matter where no two states are equally new. -/
theorem newest?_congr (same : ∀ s, s ∈ states ↔ s ∈ states')
    (distinct : ∀ s ∈ states, ∀ s' ∈ states, s.lastUpdated = s'.lastUpdated → s = s') :
    newest? states = newest? states' := by
  cases newest : newest? states with
  | none =>
    rw [newest?_eq_none] at newest
    subst newest
    symm
    rw [newest?_eq_none]
    exact List.eq_nil_iff_forall_not_mem.mpr fun s member => nomatch (same s).mpr member
  | some s =>
    have member := mem_of_newest? newest
    cases newest' : newest? states' with
    | none =>
      rw [newest?_eq_none] at newest'
      exact absurd ((same s).mp member) (by simp [newest'])
    | some s' =>
      have member' := (same s').mpr (mem_of_newest? newest')
      have le := le_of_newest? newest member'
      have ge := le_of_newest? newest' ((same s).mp member)
      rw [distinct s member s' member' (UInt64.le_antisymm ge le)]

end ReplicaRing.NodeState
