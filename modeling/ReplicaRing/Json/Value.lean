/-! JSON at the level of values. Members keep their order; a number that is not written as an
integer is only known to be one. -/
namespace ReplicaRing

inductive Json
  | null
  | bool (value : Bool)
  | int (value : Int)
  | fraction
  | text (value : String)
  | list (items : List Json)
  | object (members : List (String × Json))
deriving Inhabited

namespace Json

def nat (n : Nat) : Json := .int n

def word (n : UInt64) : Json := nat n.toNat

/-- Null stands for a value that is not there. -/
def option {α : Type} (write : α → Json) : Option α → Json
  | none => .null
  | some value => write value

/-- The first member of the name; null if there is none, or no object. -/
def get (name : String) : Json → Json
  | .object members => ((members.find? fun member => member.1 = name).map (·.2)).getD .null
  | _ => .null

def items : Json → List Json
  | .list items => items
  | _ => []

def nat? : Json → Option Nat
  | .int value => if 0 ≤ value then some value.toNat else none
  | _ => none

def text? : Json → Option String
  | .text value => some value
  | _ => none

def bool? : Json → Option Bool
  | .bool value => some value
  | _ => none

end Json
end ReplicaRing
