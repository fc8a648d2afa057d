import Mathlib.Data.List.Induction
import ReplicaRing.Node.Directory
import ReplicaRing.Proofs.Node.Registry

/-! Map and list of a directory hold the same nodes, whatever is done to it: both are what a registry of the same history
holds. What that is can be read off the history: the insertions that no later change of the same address follows, in
their order. -/
namespace ReplicaRing

inductive Change (ν : Type) where
  | insert (address : NodeAddress) (value : ν)
  | remove (address : NodeAddress)

namespace Change

variable {ν : Type}

def address : Change ν → NodeAddress
  | insert a _ => a
  | remove a => a

def enters? : Change ν → Option (NodeAddress × ν)
  | insert a value => some (a, value)
  | remove _ => none

@[simp] theorem address_insert (a : NodeAddress) (value : ν) : (insert a value).address = a := rfl

@[simp] theorem address_remove (a : NodeAddress) : (remove a : Change ν).address = a := rfl

/-- The insertions that no later change of the same address follows. -/
def lasting : List (Change ν) → List (NodeAddress × ν)
  | [] => []
  | change :: later =>
    if ∃ next ∈ later, next.address = change.address then lasting later else change.enters?.toList ++ lasting later

theorem enters?_eq_some_iff {change : Change ν} {a : NodeAddress} {value : ν} :
    change.enters? = some (a, value) ↔ change = insert a value := by
  cases change <;> simp [enters?]

theorem filter_enters? (change : Change ν) (a : NodeAddress) : change.enters?.toList.filter (fun entry => entry.1 ≠ a) =
    if change.address = a then [] else change.enters?.toList := by
  cases change with
  | insert b value => by_cases here : b = a <;> simp [enters?, here]
  | remove b => split <;> rfl

theorem lasting_concat (changes : List (Change ν)) (change : Change ν) : lasting (changes ++ [change]) =
    (lasting changes).filter (fun entry => entry.1 ≠ change.address) ++ change.enters?.toList := by
  induction changes with
  | nil => simp [lasting]
  | cons first later ih =>
    have last : (∃ next ∈ later ++ [change], next.address = first.address) ↔
        (∃ next ∈ later, next.address = first.address) ∨ change.address = first.address := by
      simp [or_and_right, exists_or]
    simp only [List.cons_append, lasting, last, ih]
    by_cases again : ∃ next ∈ later, next.address = first.address
    · rw [if_pos (.inl again), if_pos again]
    · rw [if_neg again, List.filter_append, filter_enters?]
      by_cases same : change.address = first.address
      · rw [if_pos (.inr same), if_pos same.symm, List.nil_append]
      · rw [if_neg (not_or_intro again same), if_neg (Ne.symm same), List.append_assoc]

/-- What lasts for an address is the last insertion, if no removal follows. -/
theorem mem_lasting_iff {changes : List (Change ν)} {a : NodeAddress} {value : ν} : (a, value) ∈ lasting changes ↔
    ∃ before after, changes = before ++ insert a value :: after ∧ ∀ change ∈ after, change.address ≠ a := by
  induction changes with
  | nil => simp [lasting]
  | cons first later ih =>
    constructor
    · intro lasts
      by_cases again : ∃ next ∈ later, next.address = first.address
      · rw [lasting, if_pos again, ih] at lasts
        obtain ⟨before, after, rfl, last⟩ := lasts
        exact ⟨first :: before, after, rfl, last⟩
      · rw [lasting, if_neg again, List.mem_append, Option.mem_toList, ih] at lasts
        rcases lasts with here | ⟨before, after, rfl, last⟩
        · obtain rfl := enters?_eq_some_iff.mp here
          exact ⟨[], later, rfl, fun change member here => again ⟨change, member, here⟩⟩
        · exact ⟨first :: before, after, rfl, last⟩
    · rintro ⟨before, after, whole, last⟩
      rw [lasting]
      cases before with
      | nil =>
        obtain ⟨rfl, rfl⟩ := List.cons.inj whole
        rw [if_neg fun ⟨next, member, here⟩ => last next member here]
        exact List.mem_append_left _ (by simp [enters?])
      | cons _ before =>
        obtain ⟨rfl, rfl⟩ := List.cons.inj whole
        have lasts := ih.mpr ⟨before, after, rfl, last⟩
        split
        · exact lasts
        · exact List.mem_append_right _ lasts

end Change

section Running

variable {ν : Type}

def Registry.apply (r : Registry ν) : Change ν → Registry ν
  | .insert a value => r.insert a value
  | .remove a => r.erase a

def Directory.apply (d : Directory ν) : Change ν → Directory ν
  | .insert a value => d.insert a value
  | .remove a => (d.remove a).2

def Registry.run (changes : List (Change ν)) : Registry ν := changes.foldl apply .empty

def Directory.run (changes : List (Change ν)) : Directory ν := changes.foldl apply .empty

theorem Registry.entries_run (changes : List (Change ν)) : (run changes).entries = Change.lasting changes := by
  induction changes using List.reverseRecOn with
  | nil => rfl
  | append_singleton changes change ih =>
    rw [Change.lasting_concat, ← ih, run, List.foldl_append, List.foldl_cons, List.foldl_nil, ← run]
    cases change with
    | insert a value => rfl
    | remove a => exact (List.append_nil _).symm

end Running

namespace Directory

variable {ν : Type} {d : Directory ν} {r : Registry ν} {a b : NodeAddress} {value : ν}

structure Agrees (d : Directory ν) (r : Registry ν) : Prop where
  index : ∀ a, d.get? a = r.get? a
  ordered : d.ordered = r.entries

theorem empty_agrees : Agrees (.empty : Directory ν) .empty where
  index _ := Std.HashMap.getElem?_empty
  ordered := rfl

theorem mem_index_iff : a ∈ d.index ↔ (d.get? a).isSome := Std.HashMap.mem_iff_isSome_getElem?

theorem get?_insert : (d.insert a value).get? b = if b = a then some value else d.get? b := by
  by_cases here : b = a
  · simp [get?, insert, here]
  · simp [get?, insert, Std.HashMap.getElem?_insert, here, Ne.symm here]

theorem get?_modify (f : ν → ν) : (d.modify a f).get? b = if b = a then (d.get? b).map f else d.get? b := by
  by_cases here : b = a
  · simp [get?, modify, here]
  · simp [get?, modify, Std.HashMap.getElem?_modify, here, Ne.symm here]

theorem remove_unknown (unknown : d.get? a = none) : d.remove a = (none, d) := by
  simp only [remove, show d.index[a]? = none from unknown]

theorem remove_known (known : d.get? a = some value) :
    d.remove a = (some value, ⟨d.index.erase a, d.ordered.filter fun entry => entry.1 ≠ a⟩) := by
  simp only [remove, show d.index[a]? = some value from known]

theorem get?_remove : (d.remove a).2.get? b = if b = a then none else d.get? b := by
  cases known : d.get? a with
  | none =>
    rw [remove_unknown known]
    split
    · rename_i here
      exact here ▸ known
    · rfl
  | some value =>
    rw [remove_known known]
    by_cases here : b = a
    · simp [get?, here]
    · simp [get?, Std.HashMap.getElem?_erase, here, Ne.symm here]

theorem Agrees.insert (agrees : d.Agrees r) (a : NodeAddress) (value : ν) :
    (d.insert a value).Agrees (r.insert a value) where
  index b := by rw [get?_insert, Registry.get?_insert, agrees.index]
  ordered := by
    -- the list is left as it is just where the map shows that there is nothing to take out
    have kept : (if a ∈ d.index then d.ordered.filter fun entry => entry.1 ≠ a else d.ordered) = (r.erase a).entries := by
      split
      · exact congrArg _ agrees.ordered
      · rename_i unknown
        rw [mem_index_iff, agrees.index, Option.not_isSome_iff_eq_none] at unknown
        rw [agrees.ordered, Registry.erase_unknown _ unknown]
    exact congrArg (· ++ [(a, value)]) kept

theorem Agrees.remove (agrees : d.Agrees r) (a : NodeAddress) : (d.remove a).2.Agrees (r.erase a) where
  index b := by rw [get?_remove, Registry.get?_erase, agrees.index]
  ordered := by
    cases known : d.get? a with
    | none => rw [remove_unknown known, Registry.erase_unknown _ (agrees.index a ▸ known), agrees.ordered]
    | some value =>
      rw [remove_known known]
      exact congrArg _ agrees.ordered

theorem Agrees.modify (agrees : d.Agrees r) (a : NodeAddress) (f : ν → ν) : (d.modify a f).Agrees (r.modify a f) where
  index b := by rw [get?_modify, Registry.get?_modify, agrees.index]
  ordered := congrArg _ agrees.ordered

def settle (d : Directory ν) (a : NodeAddress) : Option ν → Directory ν
  | none => (d.remove a).2
  | some value => if (d.get? a).isSome then d.modify a fun _ => value else d.insert a value

theorem Agrees.settle (agrees : d.Agrees r) (a : NodeAddress) (fate : Option ν) :
    (d.settle a fate).Agrees (r.settle a fate) := by
  cases fate with
  | none => exact agrees.remove a
  | some value =>
    rw [Directory.settle, Registry.settle, agrees.index]
    split
    · exact agrees.modify a _
    · exact agrees.insert a value

theorem Agrees.mem_index_iff (agrees : d.Agrees r) : a ∈ d.index ↔ a ∈ r.addresses := by
  rw [Directory.mem_index_iff, agrees.index, Registry.get?_isSome_iff]

theorem Agrees.size (agrees : d.Agrees r) : d.size = r.size := by
  have keys : d.index.keys.Perm r.addresses :=
    (List.perm_ext_iff_of_nodup Std.HashMap.nodup_keys r.distinct).mpr fun a =>
      Std.HashMap.mem_keys.trans agrees.mem_index_iff
  rw [Directory.size, ← Std.HashMap.length_keys, keys.length_eq, Registry.addresses, List.length_map, Registry.size]

theorem run_agrees (changes : List (Change ν)) : (run changes).Agrees (Registry.run changes) := by
  induction changes using List.reverseRecOn with
  | nil => exact empty_agrees
  | append_singleton changes change ih =>
    rw [run, Registry.run, List.foldl_append, List.foldl_append, ← run, ← Registry.run]
    cases change with
    | insert a value => exact ih.insert a value
    | remove a => exact ih.remove a

end Directory
end ReplicaRing
