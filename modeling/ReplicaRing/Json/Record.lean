import ReplicaRing.Error
import ReplicaRing.Json.Value

/-! Decoding of records. A record is an object, whose unknown members are ignored, or the list of
its fields in declared order. Of several faults the one met first in the value is reported; a field
that is missing is noticed last. -/
namespace ReplicaRing.Json

/-- `shape` is a value of the wrong form; `refused` is one of the right form that is not valid. -/
inductive Fault
  | shape
  | refused (cause : ArgumentError)
deriving DecidableEq

abbrev Decoder (α : Type) := Json → Except Fault α

def refine {α β : Type} (decode : Decoder α) (check : α → Except ArgumentError β) : Decoder β :=
  fun j =>
    match decode j with
    | .error fault => .error fault
    | .ok a =>
      match check a with
      | .ok b => .ok b
      | .error cause => .error (.refused cause)

def asBool : Decoder Bool
  | .bool value => .ok value
  | _ => .error .shape

def asText : Decoder String
  | .text value => .ok value
  | _ => .error .shape

/-- An integer of `bits` bits without sign. -/
def asNatural (bits : Nat) : Decoder Nat
  | .int value => if 0 ≤ value ∧ value < Nat.pow 2 bits then .ok value.toNat else .error .shape
  | _ => .error .shape

def asUInt32 : Decoder UInt32 := fun j => (asNatural 32 j).map UInt32.ofNat

def asUInt64 : Decoder UInt64 := fun j => (asNatural 64 j).map UInt64.ofNat

def asOption {α : Type} (decode : Decoder α) : Decoder (Option α)
  | .null => .ok none
  | j => (decode j).map some

def asList {α : Type} (decode : Decoder α) : Decoder (List α)
  | .list items => items.mapM decode
  | _ => .error .shape

/-- A value, or a fault and the place where it was met. -/
structure Reading (α : Type) where
  result : Except (Nat × Fault) α

/-- Applies what was read to what is read next; of two faults the earlier one stays. -/
def Reading.apply {α β : Type} (f : Reading (α → β)) (x : Reading α) : Reading β :=
  match f.result, x.result with
  | .ok f, .ok x => ⟨.ok (f x)⟩
  | .error e, .ok _ => ⟨.error e⟩
  | .ok _, .error e => ⟨.error e⟩
  | .error e, .error e' => ⟨.error (if e'.1 < e.1 then e' else e)⟩

instance : Applicative Reading where
  pure a := ⟨.ok a⟩
  seq f x := f.apply (x ())

/-- The members of a record under their names; `positional` if they were given as a list, `excess`
if it had more items than the record has fields. -/
structure Record where
  members : List (String × Json)
  positional : Bool
  excess : Bool

def asRecord (fields : List String) : Decoder Record
  | .object members => .ok ⟨members, false, false⟩
  | .list items => .ok ⟨fields.zip items, true, decide (fields.length < items.length)⟩
  | _ => .error .shape

namespace Record

/-- The values under a name, each with its place. -/
def named (r : Record) (name : String) : List (Nat × Json) :=
  r.members.zipIdx.filterMap fun (member, place) =>
    if member.1 = name then some (place, member.2) else none

/-- A field that may be missing. A name given twice is a fault where it comes again. -/
def read {α : Type} (r : Record) (name : String) (decode : Decoder α) : Reading (Option α) :=
  match r.named name with
  | [] => ⟨.ok none⟩
  | (place, value) :: more =>
    match decode value, more with
    | .error fault, _ => ⟨.error (place, fault)⟩
    | .ok a, [] => ⟨.ok (some a)⟩
    | .ok _, (again, _) :: _ => ⟨.error (again, .shape)⟩

def orElse {α : Type} (default : Except (Nat × Fault) α) (reading : Reading (Option α)) : Reading α :=
  match reading.result with
  | .ok (some a) => ⟨.ok a⟩
  | .ok none => ⟨default⟩
  | .error e => ⟨.error e⟩

def need {α : Type} (r : Record) (name : String) (decode : Decoder α) : Reading α :=
  orElse (.error (r.members.length, .shape)) (r.read name decode)

/-- A missing or null member is no value; in a list it must be given. -/
def needOption {α : Type} (r : Record) (name : String) (decode : Decoder α) : Reading (Option α) :=
  if r.positional then r.need name (asOption decode)
  else orElse (.ok none) (r.read name (asOption decode))

def readOr {α : Type} (r : Record) (name : String) (decode : Decoder α) (default : α) : Reading α :=
  orElse (.ok default) (r.read name decode)

/-- The record that was read, unless its list went on after the last field. -/
def close {α : Type} (r : Record) (reading : Reading α) : Except Fault α :=
  match reading.result with
  | .error (_, fault) => .error fault
  | .ok a => if r.excess then .error .shape else .ok a

end Record
end ReplicaRing.Json
