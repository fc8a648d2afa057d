import ReplicaRing.Error
import ReplicaRing.Fingerprint.Layout

/-! Keys of entries: the text an application uses and the bytes a store keeps. -/
namespace ReplicaRing

structure RawKey where
  bytes : ByteArray

instance : DecidableEq RawKey := fun x y =>
  match ByteArray.instDecidableEq x.bytes y.bytes with
  | isTrue same => isTrue (congrArg RawKey.mk same)
  | isFalse apart => isFalse fun same => apart (congrArg RawKey.bytes same)

def RawKey.ofText (key : String) : RawKey := ⟨key.toUTF8⟩

def RawKey.toText (raw : RawKey) : Except ArgumentError String :=
  match Utf8.decode raw.bytes with
  | .ok key => .ok key
  | .error fault => .error (.rawKey fault)

/-- The hash by which a key is routed, before it is reduced into a key space. -/
def routingHash (key : String) : UInt64 := fingerprint key

theorem RawKey.toText_ofText (key : String) : (RawKey.ofText key).toText = .ok key := by
  simp only [toText, ofText, Utf8.decode_toUTF8]

end ReplicaRing
