/-! White space, trimming and splitting of character lists, and decimal numbers. Blank characters are those of Unicode's
White_Space property; ASCII alone would be too narrow for what users type. A number is read from ASCII digits, with any
number of leading zeros and at most one plus sign, and is refused if it does not fit its word. -/
namespace ReplicaRing.Text

def isBlank (c : Char) : Bool :=
  let n := c.toNat
  (9 ≤ n && n ≤ 13) || n == 0x20 || n == 0x85 || n == 0xA0 || n == 0x1680 ||
  (0x2000 ≤ n && n ≤ 0x200A) || n == 0x2028 || n == 0x2029 || n == 0x202F || n == 0x205F ||
  n == 0x3000

def trimStart (text : List Char) : List Char := text.dropWhile isBlank

def trimEnd (text : List Char) : List Char := (trimStart text.reverse).reverse

def trim (text : List Char) : List Char := trimEnd (trimStart text)

/-- What stands before and after the first `mark`. -/
def splitFirst (mark : Char) : List Char → Option (List Char × List Char)
  | [] => none
  | c :: rest =>
    if c = mark then some ([], rest)
    else (splitFirst mark rest).map fun (before, after) => (c :: before, after)

/-- What stands before and after the last `mark`. -/
def splitLast (mark : Char) : List Char → Option (List Char × List Char)
  | [] => none
  | c :: rest =>
    match splitLast mark rest with
    | some (before, after) => some (c :: before, after)
    | none => if c = mark then some ([], rest) else none

/-- The parts between the marks; no mark gives one part. -/
def splitAll (mark : Char) : List Char → List (List Char)
  | [] => [[]]
  | c :: rest =>
    match splitAll mark rest with
    | [] => [[]]
    | part :: parts => if c = mark then [] :: part :: parts else (c :: part) :: parts

/-- Drops one pair of enclosing brackets, if both are there. -/
def unbracket (text : List Char) : List Char :=
  match text with
  | '[' :: rest => if rest.getLast? = some ']' then rest.dropLast else text
  | _ => text

theorem splitFirst_eq_none {mark : Char} {text : List Char} :
    splitFirst mark text = none ↔ mark ∉ text := by
  induction text with
  | nil => simp [splitFirst]
  | cons c rest ih =>
    by_cases h : c = mark
    · simp [splitFirst, h]
    · simp [splitFirst, h, ih, Ne.symm h]

theorem splitLast_append {mark : Char} (before after : List Char) (clean : mark ∉ after) :
    splitLast mark (before ++ mark :: after) = some (before, after) := by
  have none_after : ∀ text, mark ∉ text → splitLast mark text = none := by
    intro text h
    induction text with
    | nil => rfl
    | cons c rest ih =>
      simp only [List.mem_cons, not_or] at h
      simp [splitLast, ih h.2, Ne.symm h.1]
  induction before with
  | nil => simp [splitLast, none_after after clean]
  | cons c rest ih => simp [splitLast, ih]

/-- One or more ASCII digits. -/
def digits? (text : List Char) : Option Nat :=
  if text ≠ [] ∧ text.all Char.isDigit then some (Nat.ofDigitChars 10 text 0) else none

def dropPlus : List Char → List Char
  | '+' :: rest => rest
  | text => text

/-- A number of `bits` bits. -/
def natural? (bits : Nat) (text : List Char) : Option Nat :=
  (digits? (dropPlus text)).filter (· < Nat.pow 2 bits)

def decimal (n : Nat) : List Char := Nat.toDigits 10 n

theorem digits?_decimal (n : Nat) : digits? (decimal n) = some n := by
  have digit : ∀ c ∈ decimal n, c.isDigit := fun c h => Nat.isDigit_of_mem_toDigits (by omega) (by omega) h
  have filled : decimal n ≠ [] := Nat.toDigits_ne_nil
  have all : (decimal n).all Char.isDigit = true := List.all_eq_true.mpr digit
  simp only [digits?, filled, all, ne_eq, not_false_eq_true, and_self, if_true]
  rw [decimal, Nat.ofDigitChars_toDigits (by omega) (by omega)]

end ReplicaRing.Text
