import Mathlib.Data.List.DropRight
import ReplicaRing.Text.Basic

/-! What trimming, splitting and reading numbers make of a text, said of the text itself: which part of it is the core,
what stands before and after a mark, and which number its digits write. -/
namespace ReplicaRing.Text

section Trimming

structure Trims (text core : List Char) : Prop where
  around : ∃ lead trail, text = lead ++ core ++ trail ∧ (∀ c ∈ lead, isBlank c = true) ∧
    ∀ c ∈ trail, isBlank c = true
  first : ∀ c ∈ core.head?, isBlank c = false
  last : ∀ c ∈ core.getLast?, isBlank c = false

theorem trimStart_eq_self {text : List Char} (first : ∀ c ∈ text.head?, isBlank c = false) : trimStart text = text := by
  cases text with
  | nil => rfl
  | cons c rest => exact List.dropWhile_cons_of_neg (by simpa using first)

theorem not_blank_head_trimStart {text : List Char} {c : Char} (start : (trimStart text).head? = some c) :
    isBlank c = false := by
  have stopped := List.head?_dropWhile_not isBlank text
  rw [show (text.dropWhile isBlank).head? = some c from start] at stopped
  simpa using stopped

theorem not_blank_head_trim {text : List Char} {c : Char} {rest : List Char} (trimmed : trim text = c :: rest) :
    isBlank c = false := by
  -- what the end loses does not reach the first character that is left
  have kept : c :: rest <+: trimStart text := trimmed ▸ List.rdropWhile_prefix isBlank (trimStart text)
  obtain ⟨more, start⟩ := kept
  exact not_blank_head_trimStart (by rw [← start]; rfl)

theorem trimStart_append {lead rest : List Char} (blank : ∀ c ∈ lead, isBlank c = true) :
    trimStart (lead ++ rest) = trimStart rest :=
  List.dropWhile_append_of_pos blank

theorem trimEnd_append {rest trail : List Char} (blank : ∀ c ∈ trail, isBlank c = true) :
    trimEnd (rest ++ trail) = trimEnd rest := by
  rw [trimEnd, trimEnd, List.reverse_append, trimStart_append (by simpa using blank)]

theorem Trims.self {text : List Char} (first : ∀ c ∈ text.head?, isBlank c = false)
    (last : ∀ c ∈ text.getLast?, isBlank c = false) : Trims text text :=
  ⟨⟨[], [], by simp⟩, first, last⟩

theorem trims_trim (text : List Char) : Trims text (trim text) where
  around := by
    refine ⟨text.takeWhile isBlank, (trimStart text).rtakeWhile isBlank, ?_, fun c => List.mem_takeWhile_imp,
      fun c => List.mem_rtakeWhile_imp⟩
    have whole : trim text ++ (trimStart text).rtakeWhile isBlank = trimStart text :=
      List.rdropWhile_append_rtakeWhile
    rw [List.append_assoc, whole]
    exact List.takeWhile_append_dropWhile.symm
  first c start := by
    cases trimmed : trim text with
    | nil => simp [trimmed] at start
    | cons d rest =>
      obtain rfl : d = c := by simpa [trimmed] using start
      exact not_blank_head_trim trimmed
  last c stop := by
    have start : (trimStart (trimStart text).reverse).head? = some c := by simpa [trim, trimEnd] using stop
    exact not_blank_head_trimStart start

theorem Trims.trim_eq {text core : List Char} (trims : Trims text core) : trim text = core := by
  obtain ⟨lead, trail, rfl, blank, blank'⟩ := trims.around
  rw [trim, List.append_assoc, trimStart_append blank]
  cases core with
  | nil =>
    have nothing : trimStart ([] ++ trail) = [] := List.dropWhile_eq_nil_iff.mpr blank'
    rw [nothing]
    rfl
  | cons c rest =>
    have start : trimStart (c :: rest ++ trail) = c :: rest ++ trail := trimStart_eq_self (by simpa using trims.first)
    have stop : trimStart (c :: rest).reverse = (c :: rest).reverse :=
      trimStart_eq_self (by simpa only [List.head?_reverse] using trims.last)
    rw [start, trimEnd_append blank', trimEnd, stop, List.reverse_reverse]

/-- The body is what stands between brackets, if both are there, and else the whole text. -/
def Unwraps (text body : List Char) : Prop :=
  text = '[' :: body ++ [']'] ∨ text = body ∧ ∀ inner, text ≠ '[' :: inner ++ [']']

theorem unwraps_unbracket (text : List Char) : Unwraps text (unbracket text) := by
  unfold unbracket
  split
  · rename_i rest
    split
    · rename_i closed
      left
      rw [List.cons_append, List.dropLast_append_getLast? _ closed]
    · rename_i unclosed
      right
      refine ⟨rfl, fun inner closed => unclosed ?_⟩
      rw [List.cons_append, List.cons.injEq] at closed
      rw [closed.2, List.getLast?_concat]
  · rename_i unopened
    exact .inr ⟨rfl, fun inner opened => unopened _ opened⟩

theorem Unwraps.unbracket_eq {text body : List Char} (unwraps : Unwraps text body) : unbracket text = body := by
  rcases unwraps with rfl | ⟨rfl, bare⟩
  · simp [unbracket]
  · rcases unwraps_unbracket text with closed | ⟨same, -⟩
    · exact absurd closed (bare _)
    · exact same.symm

theorem unbracket_eq_iff {text body : List Char} : unbracket text = body ↔ Unwraps text body :=
  ⟨fun inner => inner ▸ unwraps_unbracket text, Unwraps.unbracket_eq⟩

end Trimming

section Splitting

theorem splitFirst_eq_some_iff {mark : Char} {text before after : List Char} :
    splitFirst mark text = some (before, after) ↔ text = before ++ mark :: after ∧ mark ∉ before := by
  constructor
  · intro parts
    induction text generalizing before with
    | nil => simp [splitFirst] at parts
    | cons c rest ih =>
      simp only [splitFirst] at parts
      split at parts
      · rename_i here
        obtain ⟨rfl, rfl⟩ : [] = before ∧ rest = after := by simpa using parts
        simp [here]
      · rename_i other
        obtain ⟨⟨start, stop⟩, found, same⟩ := Option.map_eq_some_iff.mp parts
        obtain ⟨rfl, rfl⟩ := Prod.mk.inj same
        obtain ⟨rfl, clean⟩ := ih found
        simp [clean, Ne.symm other]
  · rintro ⟨rfl, clean⟩
    induction before with
    | nil => simp [splitFirst]
    | cons c before ih =>
      simp only [List.mem_cons, not_or] at clean
      simp [splitFirst, Ne.symm clean.1, ih clean.2]

theorem splitLast_eq_none {mark : Char} {text : List Char} (unmarked : splitLast mark text = none) : mark ∉ text := by
  induction text with
  | nil => simp
  | cons c rest ih =>
    simp only [splitLast] at unmarked
    split at unmarked
    · contradiction
    · rename_i clean
      have other : c ≠ mark := by simpa using unmarked
      simp [ih clean, other.symm]

theorem splitLast_eq_some_iff {mark : Char} {text before after : List Char} :
    splitLast mark text = some (before, after) ↔ text = before ++ mark :: after ∧ mark ∉ after := by
  constructor
  · intro parts
    induction text generalizing before with
    | nil => simp [splitLast] at parts
    | cons c rest ih =>
      simp only [splitLast] at parts
      split at parts
      · rename_i start stop found
        obtain ⟨rfl, rfl⟩ : c :: start = before ∧ stop = after := by simpa using parts
        simpa using ih found
      · rename_i clean
        obtain ⟨rfl, rfl, rfl⟩ : c = mark ∧ [] = before ∧ rest = after := by simpa using parts
        exact ⟨rfl, splitLast_eq_none clean⟩
  · rintro ⟨rfl, clean⟩
    exact splitLast_append before after clean

end Splitting

section Numbers

def Writes (signs : Nat) (text : List Char) (n : Nat) : Prop :=
  ∃ plus digits, plus ≤ signs ∧ text = List.replicate plus '+' ++ digits ∧ digits ≠ [] ∧
    (∀ c ∈ digits, c.isDigit = true) ∧ Nat.ofDigitChars 10 digits 0 = n

theorem Writes.mono {signs signs' : Nat} (le : signs ≤ signs') {text : List Char} {n : Nat}
    (writes : Writes signs text n) : Writes signs' text n := by
  obtain ⟨plus, digits, few, number⟩ := writes
  exact ⟨plus, digits, few.trans le, number⟩

theorem digits?_eq_some_iff {text : List Char} {n : Nat} : digits? text = some n ↔ Writes 0 text n := by
  simp [digits?, Writes, and_assoc]

/-- A plus sign less to read is one less to allow. -/
theorem writes_dropPlus_iff {signs : Nat} {text : List Char} {n : Nat} :
    Writes signs (dropPlus text) n ↔ Writes (signs + 1) text n := by
  unfold dropPlus
  split
  · rename_i rest
    constructor
    · rintro ⟨plus, digits, few, rfl, number⟩
      exact ⟨plus + 1, digits, Nat.succ_le_succ few, rfl, number⟩
    · rintro ⟨plus, digits, few, signed, filled, digit, value⟩
      cases plus with
      | zero =>
        have sign : '+' ∈ digits := by simp [show digits = '+' :: rest from signed.symm]
        exact absurd (digit _ sign) (by decide)
      | succ plus =>
        rw [List.replicate_succ, List.cons_append, List.cons.injEq] at signed
        exact ⟨plus, digits, Nat.le_of_succ_le_succ few, signed.2, filled, digit, value⟩
  · rename_i unsigned
    constructor
    · rintro ⟨plus, digits, few, number⟩
      exact ⟨plus, digits, Nat.le_succ_of_le few, number⟩
    · rintro ⟨plus, digits, _, signed, number⟩
      cases plus with
      | zero => exact ⟨0, digits, Nat.zero_le _, signed, number⟩
      | succ plus => exact absurd signed (unsigned _)

theorem natural?_eq_some_iff {bits : Nat} {text : List Char} {n : Nat} :
    natural? bits text = some n ↔ Writes 1 text n ∧ n < Nat.pow 2 bits := by
  rw [natural?, Option.filter_eq_some_iff, digits?_eq_some_iff, writes_dropPlus_iff, decide_eq_true_iff]

theorem isDigit_of_mem_decimal {n : Nat} {c : Char} (digit : c ∈ decimal n) : c.isDigit = true :=
  Nat.isDigit_of_mem_toDigits (by omega) (by omega) digit

theorem decimal_ne_nil (n : Nat) : decimal n ≠ [] := Nat.toDigits_ne_nil

theorem isBlank_of_isDigit {c : Char} (digit : c.isDigit = true) : isBlank c = false := by
  have within : 48 ≤ c.toNat ∧ c.toNat ≤ 57 := by
    simpa [Char.isDigit, UInt32.le_iff_toNat_le] using digit
  simp only [isBlank]
  grind

theorem not_mem_decimal {n : Nat} {mark : Char} (other : mark.isDigit = false) : mark ∉ decimal n := by
  intro digit
  rw [isDigit_of_mem_decimal digit] at other
  contradiction

theorem writes_decimal (n : Nat) : Writes 0 (decimal n) n := digits?_eq_some_iff.mp (digits?_decimal n)

theorem decimal_injective {n m : Nat} (same : decimal n = decimal m) : n = m := by
  have read := digits?_decimal n
  rw [same, digits?_decimal] at read
  exact (Option.some.inj read).symm

theorem natural?_decimal {bits n : Nat} (small : n < Nat.pow 2 bits) : natural? bits (decimal n) = some n :=
  natural?_eq_some_iff.mpr ⟨(writes_decimal n).mono (Nat.zero_le 1), small⟩

end Numbers

end ReplicaRing.Text
