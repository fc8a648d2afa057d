import ReplicaRing.Text.Basic

/-! Spans of time in whole nanoseconds, below 2^64 seconds, and their two texts: the sum of
non-zero parts that configurations use, and the short decimal one of error messages. -/
namespace ReplicaRing

def nanosPerSecond : Nat := 1000000000

def nanosPerMilli : Nat := 1000000

structure Duration where
  nanos : Nat
  inRange : nanos < Nat.pow 2 64 * nanosPerSecond
deriving DecidableEq

namespace Duration

def ofNanos? (nanos : Nat) : Option Duration :=
  if h : nanos < Nat.pow 2 64 * nanosPerSecond then some ⟨nanos, h⟩ else none

def ofMillis (millis : UInt64) : Duration :=
  ⟨millis.toNat * 1000000, by have := millis.toNat_lt; simp only [nanosPerSecond, Nat.pow_eq]; omega⟩

def ofMicros (micros : UInt64) : Duration :=
  ⟨micros.toNat * 1000, by have := micros.toNat_lt; simp only [nanosPerSecond, Nat.pow_eq]; omega⟩

def seconds (d : Duration) : Nat := d.nanos / nanosPerSecond

def subsecond (d : Duration) : Nat := d.nanos % nanosPerSecond

/-- A month is 30.44 days and a year 365.25. -/
def secondsPerMonth : Nat := 2630016

def secondsPerYear : Nat := 31557600

/-- Years, months and days are spelled out, in the plural above one. -/
def longPart (name : String) (count : Nat) : Option String :=
  if count = 0 then none
  else if count = 1 then some s!"1{name}"
  else some s!"{count}{name}s"

def shortPart (name : String) (count : Nat) : Option String :=
  if count = 0 then none else some s!"{count}{name}"

def parts (d : Duration) : List String :=
  let s := d.seconds
  let n := d.subsecond
  let inYear := s % secondsPerYear
  let inMonth := inYear % secondsPerMonth
  let inDay := inMonth % 86400
  [longPart "year" (s / secondsPerYear), longPart "month" (inYear / secondsPerMonth),
   longPart "day" (inMonth / 86400), shortPart "h" (inDay / 3600),
   shortPart "m" (inDay % 3600 / 60), shortPart "s" (inDay % 60),
   shortPart "ms" (n / 1000000), shortPart "us" (n / 1000 % 1000),
   shortPart "ns" (n % 1000)].filterMap id

/-- The non-zero parts, largest first. -/
def text (d : Duration) : String :=
  if d.nanos = 0 then "0s" else " ".intercalate d.parts

/-- A whole number and a fraction of `places` digits, without trailing zeros. -/
def decimalText (whole fraction places : Nat) : String :=
  if fraction = 0 then toString whole
  else
    let digits := Text.decimal fraction
    let padded := List.replicate (places - digits.length) '0' ++ digits
    let kept := String.ofList (padded.reverse.dropWhile (· = '0')).reverse
    s!"{whole}.{kept}"

/-- In the largest unit that is not zero. -/
def shortText (d : Duration) : String :=
  if nanosPerSecond ≤ d.nanos then decimalText d.seconds d.subsecond 9 ++ "s"
  else if 1000000 ≤ d.nanos then decimalText (d.nanos / 1000000) (d.nanos % 1000000) 6 ++ "ms"
  else if 1000 ≤ d.nanos then decimalText (d.nanos / 1000) (d.nanos % 1000) 3 ++ "µs"
  else s!"{d.nanos}ns"

end Duration
end ReplicaRing
