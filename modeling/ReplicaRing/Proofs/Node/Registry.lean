import Mathlib.Data.List.Nodup
import ReplicaRing.Node.Registry

/-! Registries as maps. What is found at an address after each operation, and that reading the values of
all addresses gives back the entries. -/
namespace ReplicaRing.Registry

variable {ν : Type} (r : Registry ν) {a b : NodeAddress} {value : ν}

theorem get?_eq_some_iff : r.get? a = some value ↔ (a, value) ∈ r.entries := by
  constructor
  · intro found
    obtain ⟨entry, first, rfl⟩ := Option.map_eq_some_iff.mp found
    have at_a : entry.1 = a := by simpa using List.find?_some first
    exact at_a ▸ List.mem_of_find?_eq_some first
  · intro member
    have present : (r.entries.find? fun entry => entry.1 = a).isSome := by
      rw [List.find?_isSome]
      exact ⟨_, member, by simp⟩
    obtain ⟨entry, first⟩ := Option.isSome_iff_exists.mp present
    have at_a : entry.1 = a := by simpa using List.find?_some first
    have same : entry = (a, value) :=
      List.inj_on_of_nodup_map r.distinct (List.mem_of_find?_eq_some first) member at_a
    simp [get?, first, same]

theorem get?_insert : (r.insert b value).get? a = if a = b then some value else r.get? a := by
  ext found
  rw [get?_eq_some_iff]
  split
  · rename_i same
    simp [insert, erase, same, eq_comm]
  · rename_i apart
    simp [insert, erase, get?_eq_some_iff, apart]

theorem filter_unknown (unknown : r.get? a = none) : (r.entries.filter fun entry => entry.1 ≠ a) = r.entries := by
  refine List.filter_eq_self.mpr ?_
  rintro ⟨b, known⟩ member
  have found := r.get?_eq_some_iff.mpr member
  exact decide_eq_true fun here => by simp [← here, found] at unknown

theorem entries_insert_new (unknown : r.get? a = none) : (r.insert a value).entries = r.entries ++ [(a, value)] := by
  simp only [insert, erase, r.filter_unknown unknown]

theorem erase_unknown (unknown : r.get? a = none) : r.erase a = r := by
  obtain ⟨entries, distinct⟩ := r
  exact Registry.mk.injEq .. ▸ filter_unknown _ unknown

theorem get?_isSome_iff : (r.get? a).isSome ↔ a ∈ r.addresses := by
  simp only [Option.isSome_iff_exists, get?_eq_some_iff, addresses, List.mem_map]
  constructor
  · rintro ⟨value, member⟩
    exact ⟨(a, value), member, rfl⟩
  · rintro ⟨⟨_, value⟩, member, rfl⟩
    exact ⟨value, member⟩

theorem get?_erase : (r.erase b).get? a = if a = b then none else r.get? a := by
  ext found
  rw [get?_eq_some_iff]
  split
  · rename_i same
    simp [erase, same]
  · rename_i apart
    simp [erase, get?_eq_some_iff, apart]

theorem get?_modify (f : ν → ν) :
    (r.modify b f).get? a = if a = b then (r.get? a).map f else r.get? a := by
  ext found
  rw [get?_eq_some_iff]
  simp only [modify, List.mem_map]
  constructor
  · rintro ⟨⟨c, value⟩, member, changed⟩
    have known := r.get?_eq_some_iff.mpr member
    by_cases same : c = b
    · simp only [if_pos same, Prod.mk.injEq] at changed
      obtain ⟨rfl, rfl⟩ := changed
      simp [same ▸ known, same]
    · simp only [if_neg same, Prod.mk.injEq] at changed
      obtain ⟨rfl, rfl⟩ := changed
      simpa [same] using known
  · split
    · rename_i same
      rw [Option.map_eq_some_iff]
      rintro ⟨value, known, rfl⟩
      exact ⟨_, r.get?_eq_some_iff.mp known, by simp [same]⟩
    · rename_i apart
      exact fun known => ⟨_, r.get?_eq_some_iff.mp known, by simp [apart]⟩

theorem modify_same {r : Registry ν} (known : r.get? a = some value) :
    (r.modify a fun _ => value) = r := by
  have same : ∀ entry ∈ r.entries, (if entry.1 = a then (entry.1, value) else entry) = entry := by
    rintro ⟨b, other⟩ member
    split
    · rename_i here
      obtain rfl : b = a := here
      obtain rfl : other = value := Option.some.inj ((r.get?_eq_some_iff.mpr member).symm.trans known)
      rfl
    · rfl
  obtain ⟨entries, distinct⟩ := r
  simp only [modify, mk.injEq]
  exact (List.map_congr_left same).trans (List.map_id' entries)

/-- Puts down what has become of a node: it is gone, it has changed in place, or it is new. -/
def settle (r : Registry ν) (a : NodeAddress) : Option ν → Registry ν
  | none => r.erase a
  | some value => if (r.get? a).isSome then r.modify a fun _ => value else r.insert a value

theorem get?_settle (fate : Option ν) : (r.settle b fate).get? a = if a = b then fate else r.get? a := by
  cases fate with
  | none => exact r.get?_erase
  | some value =>
    rw [settle]
    split
    · rename_i known
      rw [get?_modify]
      split
      · rename_i here
        obtain ⟨was, found⟩ := Option.isSome_iff_exists.mp known
        rw [here, found, Option.map_some]
      · rfl
    · exact r.get?_insert

theorem filter_entries (a : NodeAddress) :
    (r.entries.filter fun entry => entry.1 = a) = ((r.get? a).map fun value => (a, value)).toList := by
  have once : r.entries.Nodup := .of_map (·.1) r.distinct
  have known : ∀ entry, entry ∈ (r.entries.filter fun entry => entry.1 = a) ↔
      entry ∈ ((r.get? a).map fun value => (a, value)).toList := by
    rintro ⟨b, value⟩
    simp only [List.mem_filter, decide_eq_true_eq, Option.mem_toList, Option.map_eq_some_iff, Prod.mk.injEq]
    constructor
    · rintro ⟨member, rfl⟩
      exact ⟨value, r.get?_eq_some_iff.mpr member, rfl, rfl⟩
    · rintro ⟨_, found, rfl, rfl⟩
      exact ⟨r.get?_eq_some_iff.mp found, rfl⟩
  have perm := (List.perm_ext_iff_of_nodup (once.filter _) (by cases r.get? a <;> simp)).mpr known
  cases found : r.get? a with
  | none => simpa [found] using perm
  | some value => simpa [found] using perm

theorem filterMap_get? : (r.addresses.filterMap fun a => (r.get? a).map fun value => (a, value)) =
    r.entries := by
  rw [addresses, List.filterMap_map]
  have reads : ∀ entry ∈ r.entries,
      ((fun a => (r.get? a).map fun value => (a, value)) ∘ (·.1)) entry = some entry := by
    intro entry member
    have known : r.get? entry.1 = some entry.2 := r.get?_eq_some_iff.mpr member
    simp [known]
  rw [List.filterMap_congr reads, List.filterMap_some]

/-- Registries with the same addresses in the same order that agree on each have entries that agree. -/
theorem map_entries_congr {β : Type} {f : ν → β} {r r' : Registry ν} (addresses : r.addresses = r'.addresses)
    (same : ∀ a, (r.get? a).map f = (r'.get? a).map f) :
    (r.entries.map fun entry => (entry.1, f entry.2)) = r'.entries.map fun entry => (entry.1, f entry.2) := by
  rw [← r.filterMap_get?, ← r'.filterMap_get?, List.map_filterMap, List.map_filterMap, addresses]
  refine List.filterMap_congr fun a _ => ?_
  have paired := congrArg (Option.map fun shown => (a, shown)) (same a)
  rw [Option.map_map, Option.map_map] at paired ⊢
  exact paired

/-- Registries that agree on each address have entries that agree, in an order of their own. -/
theorem entries_perm {β : Type} {f : ν → β} {r r' : Registry ν} (same : ∀ a, (r.get? a).map f = (r'.get? a).map f) :
    (r.entries.map fun entry => (entry.1, f entry.2)).Perm (r'.entries.map fun entry => (entry.1, f entry.2)) := by
  have once (r : Registry ν) : (r.entries.map fun entry => (entry.1, f entry.2)).Nodup := by
    refine .of_map (·.1) ?_
    simpa [Function.comp_def] using r.distinct
  have known (r : Registry ν) (a : NodeAddress) (shown : β) :
      (a, shown) ∈ (r.entries.map fun entry => (entry.1, f entry.2)) ↔ (r.get? a).map f = some shown := by
    simp [Registry.get?_eq_some_iff]
  refine (List.perm_ext_iff_of_nodup (once r) (once r')).mpr fun entry => ?_
  rw [known, known, same]

end ReplicaRing.Registry
