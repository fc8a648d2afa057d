import ReplicaRing.Json.Record
import ReplicaRing.KeySpace.Basic
import ReplicaRing.Text.Basic

/-! Key spaces and ranges from outside. As text a range is written `[start,+length]` or bare, `start,length`. In JSON a
space is a number, and a range carries the length of its space. What is read has passed the same checks as what is
constructed. -/
namespace ReplicaRing

namespace KeySpace

def parseRange (space : KeySpace) (text : String) : Except ArgumentError KeyRange :=
  let body := Text.unbracket (Text.trim text.toList)
  let numbers := do
    let (start, length) ← Text.splitFirst ',' body
    return (← Text.natural? 32 (Text.trim start), ← Text.natural? 32 (Text.dropPlus (Text.trim length)))
  match numbers with
  | some (start, length) => space.range start length
  | none => .error (.rangeText text)

def toJson (space : KeySpace) : Json := .nat space.length

def ofJson : Json.Decoder KeySpace := Json.refine (Json.asNatural 32) KeySpace.ofLength

end KeySpace

namespace KeyRange

def toJson (r : KeyRange) : Json :=
  .object [("keyspace", .nat r.space.length), ("start", .nat r.start), ("length", .nat r.length)]

def numbersOfJson : Json.Decoder (Nat × Nat × Nat) := fun j => do
  let record ← Json.asRecord ["keyspace", "start", "length"] j
  let field (name : String) := record.need name (Json.asNatural 32)
  record.close ((fun space start length => (space, start, length)) <$> field "keyspace" <*> field "start" <*>
    field "length")

def ofJson : Json.Decoder KeyRange :=
  Json.refine numbersOfJson fun (space, start, length) => do
    (← KeySpace.ofLength space).range start length

end KeyRange

end ReplicaRing
