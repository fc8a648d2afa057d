import ReplicaRing.Node.Registry
import Std.Data.HashMap

/-! A collection that is kept twice: a map finds the node of an address, and a list holds all nodes in the order of
their latest insertion. Nothing but the operations keeps the two in step. -/
namespace ReplicaRing

instance : Hashable NodeAddress := ⟨fun a => fingerprint a⟩

structure Directory (ν : Type) where
  index : Std.HashMap NodeAddress ν
  ordered : List (NodeAddress × ν)

namespace Directory

variable {ν : Type}

def empty : Directory ν := ⟨∅, []⟩

def get? (d : Directory ν) (a : NodeAddress) : Option ν := d.index[a]?

def size (d : Directory ν) : Nat := d.index.size

/-- The list is gone through only where the map had a node for the address. -/
def insert (d : Directory ν) (a : NodeAddress) (value : ν) : Directory ν :=
  let kept := if a ∈ d.index then d.ordered.filter fun entry => entry.1 ≠ a else d.ordered
  ⟨d.index.insert a value, kept ++ [(a, value)]⟩

/-- Gives back the node that is taken out. -/
def remove (d : Directory ν) (a : NodeAddress) : Option ν × Directory ν :=
  match d.index[a]? with
  | none => (none, d)
  | some value => (some value, ⟨d.index.erase a, d.ordered.filter fun entry => entry.1 ≠ a⟩)

/-- Changes a node in place, which the map and the list share. -/
def modify (d : Directory ν) (a : NodeAddress) (f : ν → ν) : Directory ν :=
  ⟨d.index.modify a f, d.ordered.map fun entry => if entry.1 = a then (entry.1, f entry.2) else entry⟩

end Directory
end ReplicaRing
