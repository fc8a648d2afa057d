import ReplicaRing.Json.Record
import ReplicaRing.Key

/-! Entries of a store and pages of listings of them. -/
namespace ReplicaRing

/-- What is known of an entry besides its content; `modified` is in milliseconds of a wall clock. -/
structure EntryInfo where
  key : RawKey
  contentLength : UInt64
  compressed : Bool
  modified : UInt64
deriving DecidableEq

inductive ListKind
  | ids
  | names
  | minimalEntries
  | fullEntries
deriving DecidableEq

inductive ListItem
  | id (key : RawKey)
  | name (name : String)
  | entry (info : EntryInfo)
deriving DecidableEq

/-- A listing goes on after `lastSeen`, the last entry the page covers. -/
structure ListPage where
  items : List ListItem
  lastSeen : Option RawKey
deriving DecidableEq

namespace ListKind

def text : ListKind → String
  | ids => "ids"
  | names => "names"
  | minimalEntries => "minimalEntries"
  | fullEntries => "fullEntries"

def all : List ListKind := [ids, names, minimalEntries, fullEntries]

def ofText? (text : String) : Option ListKind := all.find? fun kind => kind.text = text

def toJson (kind : ListKind) : Json := .text kind.text

/-- A kind is its text, or an object whose one member has that name and no value. -/
def ofJson : Json.Decoder ListKind := fun j =>
  let found := match j with
    | .text text | .object [(text, .null)] => ofText? text
    | _ => none
  match found with
  | some kind => .ok kind
  | none => .error .shape

end ListKind
end ReplicaRing
