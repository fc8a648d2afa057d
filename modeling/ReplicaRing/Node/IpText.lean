import ReplicaRing.Text.Basic

/-! Internet addresses as text, strictly: no leading zeros in a dotted quad, one to four digits in a
group of sixteen bits, and `::` for one or more groups of zeros. -/
namespace ReplicaRing.IpText

/-- A number of a dotted quad. -/
def octet? (text : List Char) : Option Nat :=
  if text.length ≤ 3 ∧ (text.head? = some '0' → text.length = 1) then
    (Text.digits? text).filter (· < 256)
  else none

def quad? (text : List Char) : Option (List Nat) :=
  let parts := Text.splitAll '.' text
  if parts.length = 4 then parts.mapM octet? else none

def hexValue? (c : Char) : Option Nat :=
  if c.isDigit then some (c.toNat - 48)
  else if 'a' ≤ c ∧ c ≤ 'f' then some (c.toNat - 87)
  else if 'A' ≤ c ∧ c ≤ 'F' then some (c.toNat - 55)
  else none

def group? (text : List Char) : Option Nat :=
  if text.isEmpty || 4 < text.length then none
  else (text.mapM hexValue?).map fun digits => digits.foldl (fun n digit => 16 * n + digit) 0

/-- Groups between colons; the last may be a dotted quad, which counts as two. -/
def groups? (quadAllowed : Bool) : List (List Char) → Option (List Nat)
  | [] => some []
  | [last] =>
    match group? last, quadAllowed, quad? last with
    | some n, _, _ => some [n]
    | none, true, some [a, b, c, d] => some [256 * a + b, 256 * c + d]
    | _, _, _ => none
  | part :: parts => do
    let n ← group? part
    return n :: (← groups? quadAllowed parts)

/-- What stands before and after the first `::`. -/
def splitGap : List Char → Option (List Char × List Char)
  | ':' :: ':' :: rest => some ([], rest)
  | c :: rest => (splitGap rest).map fun (before, after) => (c :: before, after)
  | [] => none

def parts (text : List Char) : List (List Char) := if text.isEmpty then [] else Text.splitAll ':' text

/-- The eight groups of a long address. -/
def longAddress? (text : List Char) : Option (List Nat) :=
  match splitGap text with
  | none => (groups? true (parts text)).filter (·.length = 8)
  | some (before, after) => do
    let front ← groups? false (parts before)
    let back ← groups? true (parts after)
    if front.length + back.length < 8 then
      some (front ++ List.replicate (8 - front.length - back.length) 0 ++ back)
    else none

/-- An address of the host itself: its loopback, or the address that stands for any. -/
def isOwnHost (text : List Char) : Bool :=
  match quad? text with
  | some octets => octets.head? == some 127 || octets == [0, 0, 0, 0]
  | none =>
    match longAddress? text with
    | some groups => groups == [0, 0, 0, 0, 0, 0, 0, 1] || groups == [0, 0, 0, 0, 0, 0, 0, 0]
    | none => false

end ReplicaRing.IpText
