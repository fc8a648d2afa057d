import ReplicaRing.Duration.Basic

/-! Durations read from text: a sum of spans, each a number and a unit. Counts are kept in 64-bit
words, of nanoseconds below the second and of seconds above it, so a text can be refused although
the time it names would fit. A fraction must come out exact in the grain of its unit. -/
namespace ReplicaRing.Duration

/-- Whole counts are kept in grains of `grain` nanoseconds; a unit without `fractionGrain` takes no
fraction. -/
structure Scale where
  nanos : Nat
  grain : Nat
  fractionGrain : Option Nat

def scales : List (List String × Scale) :=
  let second := nanosPerSecond
  [(["nanos", "nsec", "ns"], ⟨1, 1, none⟩),
   (["usec", "us", "µs"], ⟨1000, 1, some 1⟩),
   (["millis", "msec", "ms"], ⟨1000000, 1, some 1⟩),
   (["seconds", "second", "secs", "sec", "s"], ⟨second, second, some 1⟩),
   (["minutes", "minute", "min", "mins", "m"], ⟨60 * second, second, some 1⟩),
   (["hours", "hour", "hr", "hrs", "h"], ⟨3600 * second, second, some second⟩),
   (["days", "day", "d"], ⟨86400 * second, second, some second⟩),
   (["weeks", "week", "wk", "wks", "w"], ⟨604800 * second, second, some second⟩),
   (["months", "month", "M"], ⟨secondsPerMonth * second, second, some second⟩),
   (["years", "year", "yr", "yrs", "y"], ⟨secondsPerYear * second, second, some second⟩)]

def scale? (unit : String) : Option Scale :=
  (scales.find? fun (names, _) => names.contains unit).map (·.2)

def isUnitLetter (c : Char) : Bool := c.isAlpha || c == 'µ'

/-- Cuts a text after every run of unit letters, and each piece before that run. -/
def spans : List Char → List (List Char × List Char)
  | [] => []
  | c :: rest =>
    match isUnitLetter c, spans rest with
    | true, ([], unit) :: more => ([], c :: unit) :: more
    | true, more => ([], [c]) :: more
    | false, (number, unit) :: more => (c :: number, unit) :: more
    | false, [] => [([c], [])]

/-- The digits of a text of digits and blanks that has at least one digit. -/
def looseDigits? (text : List Char) : Option (List Char) :=
  if text.all (fun c => c.isDigit || Text.isBlank c) && text.any Char.isDigit then
    some (text.filter Char.isDigit)
  else none

def word? (n : Nat) : Option Nat := if n < Nat.pow 2 64 then some n else none

def wholeNanos? (scale : Scale) (digits : List Char) : Option Nat := do
  let count ← word? (Nat.ofDigitChars 10 digits 0)
  let grains ← word? (count * (scale.nanos / scale.grain))
  return grains * scale.grain

def fractionNanos? (scale : Scale) (digits : List Char) : Option Nat := do
  let grain ← scale.fractionGrain
  let denominator ← word? (Nat.pow 10 digits.length)
  let grains ← word? (Nat.ofDigitChars 10 digits 0 * (scale.nanos / grain))
  if grains % denominator = 0 then some (grains / denominator * grain) else none

/-- Nanoseconds and seconds are added apart, in 64-bit words. -/
def plus? (total grain more : Nat) : Option Nat :=
  if (grain = 1 → total % nanosPerSecond + more < Nat.pow 2 64) ∧
      total + more < Nat.pow 2 64 * nanosPerSecond then
    some (total + more)
  else none

def addSpan? (total : Nat) (number unit : List Char) : Option Nat := do
  let scale ← scale? (String.ofList unit)
  match Text.splitFirst '.' number with
  | none => plus? total scale.grain (← wholeNanos? scale (← looseDigits? number))
  | some (whole, fraction) =>
    let total ← plus? total scale.grain (← wholeNanos? scale (← looseDigits? whole))
    plus? total (scale.fractionGrain.getD 1) (← fractionNanos? scale (← looseDigits? fraction))

/-- Blanks after the last span are skipped. -/
def sumSpans? (total : Nat) : List (List Char × List Char) → Option Nat
  | [] => some total
  | (number, unit) :: more =>
    if more.isEmpty && unit.isEmpty && number.all Text.isBlank then some total
    else do sumSpans? (← addSpan? total number unit) more

/-- A lone zero needs no unit. -/
def ofText? (text : String) : Option Duration :=
  if text = "0" then some ⟨0, by decide⟩
  else if text.toList.all Text.isBlank then none
  else (sumSpans? 0 (spans text.toList)).bind ofNanos?

end ReplicaRing.Duration
