import ReplicaRing.Fingerprint.Hash

/-! The bytes of a value, as they are hashed. Numbers are little-endian in a fixed width; a text is
its UTF-8 bytes and one byte 0xff, which no UTF-8 text contains; an option is eight bytes that say
which case it is, then the value. -/
namespace ReplicaRing.Fingerprint

def littleEndian (width n : Nat) : List UInt8 :=
  (List.range width).map fun i => UInt8.ofNat (n / Nat.pow 256 i)

/-- Types with a layout in bytes. -/
class Layout (α : Type) where
  bytes : α → List UInt8

export Layout (bytes)

instance : Layout Bool := ⟨fun b => [if b then 1 else 0]⟩
instance : Layout UInt16 := ⟨fun n => littleEndian 2 n.toNat⟩
instance : Layout UInt32 := ⟨fun n => littleEndian 4 n.toNat⟩
instance : Layout UInt64 := ⟨fun n => littleEndian 8 n.toNat⟩
instance : Layout String := ⟨fun text => text.toUTF8.toList ++ [0xff]⟩

instance {α : Type} [Layout α] : Layout (Option α) :=
  ⟨fun
    | none => littleEndian 8 0
    | some value => littleEndian 8 1 ++ bytes value⟩

def hashBytes (bytes : List UInt8) : UInt64 := hash ⟨bytes.toArray⟩

end ReplicaRing.Fingerprint

namespace ReplicaRing

/-- The hash of a value's layout. -/
def fingerprint {α : Type} [Fingerprint.Layout α] (value : α) : UInt64 :=
  Fingerprint.hashBytes (Fingerprint.bytes value)

end ReplicaRing
