import ReplicaRing.Error
import ReplicaRing.Fingerprint.Layout
import ReplicaRing.Json.Record
import ReplicaRing.Node.IpText
import ReplicaRing.Text.Basic

/-! Network addresses of nodes. The text of an address is split at its last colon, so a host may
hold colons of its own. -/
namespace ReplicaRing

structure NodeAddress where
  host : String
  port : UInt16
deriving DecidableEq

namespace NodeAddress

def text (a : NodeAddress) : String := s!"{a.host}:{a.port.toNat}"

def parse (text : String) : Except ArgumentError NodeAddress :=
  match Text.splitLast ':' (Text.trim text.toList) with
  | none => .error (.missingPort text)
  | some (host, port) =>
    if host.isEmpty then .error (.missingHost text)
    else
      match Text.natural? 16 port with
      | none => .error (.invalidPort text)
      | some n => .ok ⟨String.ofList host, UInt16.ofNat n⟩

/-- The address only has a meaning next to the node that reported it. -/
def isLocalReference (a : NodeAddress) : Bool :=
  a.host.toList.map Char.toLower == "localhost".toList || IpText.isOwnHost a.host.toList

def withPort (a : NodeAddress) (port : UInt16) : NodeAddress := { a with port }

/-- By host, then by port number. -/
def le (a b : NodeAddress) : Bool := a.host < b.host || (a.host == b.host && a.port ≤ b.port)

/-- In order and without repetition. -/
def sorted (addresses : List NodeAddress) : List NodeAddress := (addresses.mergeSort le).eraseDups

instance : Fingerprint.Layout NodeAddress :=
  ⟨fun a => Fingerprint.bytes a.host ++ Fingerprint.bytes a.port⟩

def toJson (a : NodeAddress) : Json := .text a.text

def ofJson : Json.Decoder NodeAddress := Json.refine Json.asText parse

end NodeAddress
end ReplicaRing
