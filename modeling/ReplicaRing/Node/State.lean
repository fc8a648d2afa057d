import ReplicaRing.KeySpace.Cover
import ReplicaRing.KeySpace.Text
import ReplicaRing.Node.Address

/-! What nodes tell about themselves and each other. A state is newer the larger its `lastUpdated`;
times are milliseconds of a wall clock. -/
namespace ReplicaRing

structure NodeState where
  address : NodeAddress
  index : Option UInt32
  active : KeyRange
  passive : KeyRange
  disabled : Bool
  lastUpdated : UInt64
deriving DecidableEq

/-- The state of a sender and of the peers it knows. -/
structure StatusMessage where
  created : UInt64
  clusterUpdated : UInt64
  sender : NodeState
  peers : List NodeState
deriving DecidableEq

namespace NodeState

def total (s : NodeState) : KeyRange := s.active.union s.passive

instance : Fingerprint.Layout NodeState :=
  ⟨fun s => Fingerprint.bytes s.address ++ Fingerprint.bytes s.index ++ Fingerprint.bytes s.active ++
    Fingerprint.bytes s.passive ++ Fingerprint.bytes s.disabled ++ Fingerprint.bytes s.lastUpdated⟩

def toJson (s : NodeState) : Json :=
  .object
    [("address", s.address.toJson), ("index", .option (fun n => .nat n.toNat) s.index),
     ("range_active", s.active.toJson), ("range_passive", s.passive.toJson),
     ("disabled", .bool s.disabled), ("last_updated", .word s.lastUpdated)]

def ofJson : Json.Decoder NodeState := fun j => do
  let record ← Json.asRecord
    ["address", "index", "range_active", "range_passive", "disabled", "last_updated"] j
  record.close
    (NodeState.mk <$> record.need "address" NodeAddress.ofJson
      <*> record.needOption "index" Json.asUInt32
      <*> record.need "range_active" KeyRange.ofJson
      <*> record.need "range_passive" KeyRange.ofJson
      <*> record.need "disabled" Json.asBool
      <*> record.need "last_updated" Json.asUInt64)

end NodeState

namespace StatusMessage

/-- All states of the message, the sender's first. -/
def states (m : StatusMessage) : List NodeState := m.sender :: m.peers

def toJson (m : StatusMessage) : Json :=
  .object
    [("creation_time", .word m.created), ("cluster_last_updated", .word m.clusterUpdated),
     ("local", m.sender.toJson), ("remote", .list (m.peers.map NodeState.toJson))]

def ofJson : Json.Decoder StatusMessage := fun j => do
  let record ← Json.asRecord ["creation_time", "cluster_last_updated", "local", "remote"] j
  record.close
    (StatusMessage.mk <$> record.need "creation_time" Json.asUInt64
      <*> record.need "cluster_last_updated" Json.asUInt64
      <*> record.need "local" NodeState.ofJson
      <*> record.need "remote" (Json.asList NodeState.ofJson))

end StatusMessage
end ReplicaRing
