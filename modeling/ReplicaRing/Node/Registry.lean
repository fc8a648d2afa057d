import ReplicaRing.Node.Address

/-! A collection keyed by node address, in the order of the latest insertion. Each address occurs
once, by construction; changing a value in place keeps its position. -/
namespace ReplicaRing

structure Registry (ν : Type) where
  entries : List (NodeAddress × ν)
  distinct : (entries.map (·.1)).Nodup

namespace Registry

variable {ν : Type}

def empty : Registry ν := ⟨[], List.nodup_nil⟩

def addresses (r : Registry ν) : List NodeAddress := r.entries.map (·.1)

def size (r : Registry ν) : Nat := r.entries.length

def get? (r : Registry ν) (a : NodeAddress) : Option ν :=
  (r.entries.find? fun entry => entry.1 = a).map (·.2)

def erase (r : Registry ν) (a : NodeAddress) : Registry ν :=
  ⟨r.entries.filter fun entry => entry.1 ≠ a, r.distinct.sublist (List.filter_sublist.map _)⟩

/-- A value for an address that has one already moves to the end. -/
def insert (r : Registry ν) (a : NodeAddress) (value : ν) : Registry ν :=
  ⟨(r.erase a).entries ++ [(a, value)], by
    rw [List.map_append, List.nodup_append]
    refine ⟨(r.erase a).distinct, by simp, ?_⟩
    simp [erase]⟩

/-- Changes the value of an address in place. -/
def modify (r : Registry ν) (a : NodeAddress) (f : ν → ν) : Registry ν :=
  ⟨r.entries.map fun entry => if entry.1 = a then (entry.1, f entry.2) else entry, by
    have same : ((r.entries.map fun entry => if entry.1 = a then (entry.1, f entry.2) else entry).map (·.1))
        = r.entries.map (·.1) := by
      rw [List.map_map]
      refine List.map_congr_left fun entry _ => ?_
      by_cases h : entry.1 = a <;> simp [h]
    rw [same]
    exact r.distinct⟩

theorem addresses_modify (r : Registry ν) (a : NodeAddress) (f : ν → ν) :
    (r.modify a f).addresses = r.addresses := by
  simp only [addresses, modify, List.map_map]
  refine List.map_congr_left fun entry _ => ?_
  by_cases h : entry.1 = a <;> simp [h]

theorem addresses_insert (r : Registry ν) (a : NodeAddress) (value : ν) :
    (r.insert a value).addresses = r.addresses.filter (· ≠ a) ++ [a] := by
  simp [addresses, insert, erase, List.filter_map, Function.comp_def]

end Registry
end ReplicaRing
