/-! A 64-bit hash of bytes. Words are read in little-endian order; short texts are covered by two
overlapping words, long ones in stripes of seven independent lanes. Equal bytes hash alike on every
machine, which is all that routing asserts of it. -/
namespace ReplicaRing.Fingerprint

def byteAt (bytes : ByteArray) (i : Nat) : UInt64 :=
  if h : i < bytes.size then bytes[i].toUInt64 else 0

/-- The little-endian number in the `width` bytes from `i` on. -/
def wordAt (width : Nat) (bytes : ByteArray) (i : Nat) : UInt64 :=
  (List.range width).foldr (fun k word => (word <<< 8) ||| byteAt bytes (i + k)) 0

def secret : Nat → UInt64
  | 0 => 0x2d358dccaa6c78a5
  | 1 => 0x8bb84b93962eacc9
  | 2 => 0x4b33a62ed433d4a3
  | 3 => 0x4d5a2da51de1aa47
  | 4 => 0xa0761d6478bd642f
  | 5 => 0xe7037ed1a0b428db
  | _ => 0x90ed1765281c388c

/-- The two halves of the 128-bit product, low one first. -/
def multiply (a b : UInt64) : UInt64 × UInt64 :=
  let product := a.toNat * b.toNat
  (UInt64.ofNat product, UInt64.ofNat (product / Nat.pow 2 64))

def mix (a b : UInt64) : UInt64 :=
  let (low, high) := multiply a b
  low ^^^ high

def seed : UInt64 := mix (secret 2) (secret 1)

def stripe : Nat := 112

/-- Mixes the 16 bytes at `i` into `lane`. -/
def absorb (bytes : ByteArray) (i key : Nat) (lane : UInt64) : UInt64 :=
  mix (wordAt 8 bytes i ^^^ secret key) (wordAt 8 bytes (i + 8) ^^^ lane)

/-- All whole stripes but a last one that ends the text, each lane fed 16 bytes of every stripe. -/
def absorbStripes (bytes : ByteArray) (count : Nat) : UInt64 :=
  let lanes := (List.range count).foldl
    (fun lanes n => lanes.zipIdx.map fun (lane, k) => absorb bytes (stripe * n + 16 * k) k lane)
    (List.replicate 7 seed)
  lanes.foldl (· ^^^ ·) 0

/-- The keys of the 16-byte blocks that remain after the stripes. -/
def blockKeys : List Nat := [2, 2, 1, 1, 2, 1]

/-- Absorbs every block that is followed by another byte. -/
def absorbBlocks (bytes : ByteArray) (start : Nat) (lane : UInt64) : UInt64 :=
  blockKeys.zipIdx.foldl
    (fun lane (key, k) =>
      if start + 16 * (k + 1) < bytes.size then absorb bytes (start + 16 * k) key lane else lane)
    lane

def finish (a b lane : UInt64) (rest : Nat) : UInt64 :=
  let (a, b) := multiply (a ^^^ secret 1) (b ^^^ lane)
  mix (a ^^^ 0xaaaaaaaaaaaaaaaa) (b ^^^ secret 1 ^^^ UInt64.ofNat rest)

def hash (bytes : ByteArray) : UInt64 :=
  let n := bytes.size
  let size := UInt64.ofNat n
  if n = 0 then finish 0 0 seed 0
  else if n < 4 then
    finish ((byteAt bytes 0 <<< 45) ||| byteAt bytes (n - 1)) (byteAt bytes (n / 2)) seed n
  else if n < 8 then finish (wordAt 4 bytes 0) (wordAt 4 bytes (n - 4)) (seed ^^^ size) n
  else if n ≤ 16 then finish (wordAt 8 bytes 0) (wordAt 8 bytes (n - 8)) (seed ^^^ size) n
  else
    let stripes := (n - 1) / stripe
    let start := stripe * stripes
    let lane := if stripes = 0 then seed else absorbStripes bytes stripes
    let rest := n - start
    finish (wordAt 8 bytes (n - 16) ^^^ UInt64.ofNat rest) (wordAt 8 bytes (n - 8))
      (absorbBlocks bytes start lane) rest

end ReplicaRing.Fingerprint
