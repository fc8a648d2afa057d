import ReplicaRing.Error
import ReplicaRing.Json.Record

/-! Ranges of bytes of content. A range is never empty, by construction. -/
namespace ReplicaRing

/-- The bytes from `first` on, up to and without `stop`. -/
structure ByteRange where
  first : UInt64
  stop : UInt64
  first_lt_stop : first < stop
deriving DecidableEq

namespace ByteRange

def make (first stop : UInt64) : Except ArgumentError ByteRange :=
  if lt : first < stop then .ok ⟨first, stop, lt⟩ else .error (.byteRange first.toNat stop.toNat)

def length (r : ByteRange) : Nat := r.stop.toNat - r.first.toNat

/-- The text names the last byte, not the one after it. -/
def text (r : ByteRange) : String := s!"bytes={r.first.toNat}-{r.stop.toNat - 1}"

/-- The bytes of the range that there are. -/
def cut (r : ByteRange) (content : ByteArray) : ByteArray := content.extract r.first.toNat r.stop.toNat

def toJson (r : ByteRange) : Json := .object [("start", .word r.first), ("end", .word r.stop)]

def boundsOfJson : Json.Decoder (UInt64 × UInt64) := fun j => do
  let record ← Json.asRecord ["start", "end"] j
  record.close (Prod.mk <$> record.need "start" Json.asUInt64 <*> record.need "end" Json.asUInt64)

def ofJson : Json.Decoder ByteRange := Json.refine boundsOfJson fun (first, stop) => make first stop

end ByteRange
end ReplicaRing
