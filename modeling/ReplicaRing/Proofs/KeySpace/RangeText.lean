import ReplicaRing.KeySpace.Text
import ReplicaRing.Proofs.Text.Parts

/-! Ranges as text. What is written reads back, and what reads as a range is given in full: which texts hold two numbers,
and which of these numbers are a range of the space. -/
namespace ReplicaRing

/-- A text tells two numbers: parted by its first comma, each between blanks of its own, the whole perhaps between
brackets. The second may have a plus sign more than the first, for the one that ranges are written with. -/
def TellsRange (text : List Char) (start length : Nat) : Prop :=
  ∃ core before after, Text.Trims text core ∧ Text.Unwraps core (before ++ ',' :: after) ∧ ',' ∉ before ∧
    (∃ first, Text.Trims before first ∧ Text.Writes 1 first start) ∧
    ∃ second, Text.Trims after second ∧ Text.Writes 2 second length

namespace KeySpace

open Text

def numbers? (text : List Char) : Option (Nat × Nat) := do
  let (start, length) ← splitFirst ',' (unbracket (trim text))
  return (← natural? 32 (trim start), ← natural? 32 (dropPlus (trim length)))

theorem parseRange_eq (space : KeySpace) (text : String) : space.parseRange text =
    match numbers? text.toList with
    | some (start, length) => space.range start length
    | none => .error (.rangeText text) := rfl

theorem numbers?_eq_some_iff {text : List Char} {start length : Nat} :
    numbers? text = some (start, length) ↔
      TellsRange text start length ∧ start < Nat.pow 2 32 ∧ length < Nat.pow 2 32 := by
  have second (after : List Char) : natural? 32 (dropPlus (trim after)) = some length ↔
      Writes 2 (trim after) length ∧ length < Nat.pow 2 32 := by
    rw [natural?_eq_some_iff, writes_dropPlus_iff]
  constructor
  · intro read
    simp only [numbers?, Option.bind_eq_bind, Option.bind_eq_some_iff, Option.pure_def, Option.some.injEq,
      Prod.mk.injEq, Prod.exists] at read
    obtain ⟨before, after, parts, _, start_read, _, length_read, rfl, rfl⟩ := read
    obtain ⟨whole, clean⟩ := splitFirst_eq_some_iff.mp parts
    obtain ⟨starts, start_lt⟩ := natural?_eq_some_iff.mp start_read
    obtain ⟨lasts, length_lt⟩ := (second after).mp length_read
    exact ⟨⟨trim text, before, after, trims_trim text, unbracket_eq_iff.mp whole, clean,
      ⟨_, trims_trim before, starts⟩, ⟨_, trims_trim after, lasts⟩⟩, start_lt, length_lt⟩
  · rintro ⟨⟨core, before, after, core_of, body, clean, ⟨first, first_of, starts⟩, ⟨_, second_of, lasts⟩⟩,
      start_lt, length_lt⟩
    have parts : splitFirst ',' (unbracket (trim text)) = some (before, after) := by
      rw [core_of.trim_eq, body.unbracket_eq]
      exact splitFirst_eq_some_iff.mpr ⟨rfl, clean⟩
    have start_read : natural? 32 (trim before) = some start :=
      natural?_eq_some_iff.mpr ⟨first_of.trim_eq ▸ starts, start_lt⟩
    have length_read : natural? 32 (dropPlus (trim after)) = some length :=
      (second after).mpr ⟨second_of.trim_eq ▸ lasts, length_lt⟩
    simp [numbers?, parts, start_read, length_read]

theorem toList_text (r : KeyRange) :
    r.text.toList = '[' :: (decimal r.start ++ ',' :: '+' :: decimal r.length) ++ [']'] := by
  simp [KeyRange.text, decimal, toString]

theorem trims_decimal (n : Nat) : Trims (decimal n) (decimal n) := by
  apply Trims.self
  · exact fun c start => isBlank_of_isDigit (isDigit_of_mem_decimal (List.mem_of_mem_head? start))
  · exact fun c stop => isBlank_of_isDigit (isDigit_of_mem_decimal (List.mem_of_mem_getLast? stop))

theorem trims_signed (n : Nat) : Trims ('+' :: decimal n) ('+' :: decimal n) := by
  apply Trims.self
  · intro c start
    obtain rfl : '+' = c := by simpa using start
    decide
  · intro c stop
    rw [← List.singleton_append, List.getLast?_append_of_ne_nil _ (decimal_ne_nil n)] at stop
    exact isBlank_of_isDigit (isDigit_of_mem_decimal (List.mem_of_mem_getLast? stop))

theorem tells_text (r : KeyRange) : TellsRange r.text.toList r.start r.length := by
  have core : Trims r.text.toList r.text.toList := by
    rw [toList_text]
    apply Trims.self
    · intro c start
      obtain rfl : '[' = c := by simpa using start
      decide
    · intro c stop
      rw [List.getLast?_concat] at stop
      obtain rfl : ']' = c := by simpa using stop
      decide
  have second : Writes 2 ('+' :: decimal r.length) r.length :=
    writes_dropPlus_iff.mp ((writes_decimal r.length).mono (Nat.zero_le 1))
  exact ⟨_, _, _, core, .inl (toList_text r), not_mem_decimal (by decide),
    ⟨_, trims_decimal r.start, (writes_decimal r.start).mono (Nat.zero_le 1)⟩, ⟨_, trims_signed r.length, second⟩⟩

theorem range_eq_error_iff {space : KeySpace} {start length : Nat} {e : ArgumentError} :
    space.range start length = .error e ↔ space.length ≤ start ∧ e = .rangeStart start space.length ∨
      start < space.length ∧ space.length < length ∧ e = .rangeLength length space.length := by
  unfold range
  split
  · rename_i inside
    split
    · rename_i fits
      simp [Nat.not_le.mpr inside, Nat.not_lt.mpr fits]
    · rename_i long
      simp [Nat.not_le.mpr inside, inside, Nat.lt_of_not_le long, eq_comm]
  · rename_i outside
    simp [Nat.le_of_not_lt outside, outside, eq_comm]

theorem parseRange_of_tells {text : String} {start length : Nat} (tells : TellsRange text.toList start length)
    (start_lt : start < Nat.pow 2 32) (length_lt : length < Nat.pow 2 32) (space : KeySpace) :
    space.parseRange text = space.range start length := by
  rw [parseRange_eq, numbers?_eq_some_iff.mpr ⟨tells, start_lt, length_lt⟩]

theorem parseRange_of_not_tells {text : String} (silent : ¬ ∃ start length, TellsRange text.toList start length ∧
    start < Nat.pow 2 32 ∧ length < Nat.pow 2 32) (space : KeySpace) :
    space.parseRange text = .error (.rangeText text) := by
  have unread : numbers? text.toList = none := by
    by_contra read
    obtain ⟨⟨start, length⟩, read⟩ := Option.ne_none_iff_exists'.mp read
    exact silent ⟨start, length, numbers?_eq_some_iff.mp read⟩
  rw [parseRange_eq, unread]

theorem parseRange_eq_ok_iff {space : KeySpace} {text : String} {r : KeyRange} :
    space.parseRange text = .ok r ↔ ∃ start length, TellsRange text.toList start length ∧
      start < space.length ∧ length ≤ space.length ∧ r.space = space ∧ r.start = start ∧ r.length = length := by
  constructor
  · intro read
    by_cases tells : ∃ start length, TellsRange text.toList start length ∧
        start < Nat.pow 2 32 ∧ length < Nat.pow 2 32
    · obtain ⟨start, length, tells, start_lt, length_lt⟩ := tells
      rw [parseRange_of_tells tells start_lt length_lt] at read
      obtain ⟨rfl, rfl, rfl⟩ := range_eq_ok_iff.mp read
      exact ⟨_, _, tells, r.start_lt, r.length_le, rfl, rfl, rfl⟩
    · rw [parseRange_of_not_tells tells] at read
      contradiction
  · rintro ⟨start, length, tells, inside, fits, made⟩
    have bound := space.length_lt_word
    rw [parseRange_of_tells tells (inside.trans bound) (fits.trans_lt bound)]
    exact range_eq_ok_iff.mpr made

theorem parseRange_eq_error_iff {space : KeySpace} {text : String} {e : ArgumentError} :
    space.parseRange text = .error e ↔
      e = .rangeText text ∧
        (¬ ∃ start length, TellsRange text.toList start length ∧ start < Nat.pow 2 32 ∧ length < Nat.pow 2 32) ∨
      ∃ start length, TellsRange text.toList start length ∧ start < Nat.pow 2 32 ∧ length < Nat.pow 2 32 ∧
        (space.length ≤ start ∧ e = .rangeStart start space.length ∨
          start < space.length ∧ space.length < length ∧ e = .rangeLength length space.length) := by
  constructor
  · intro refused
    by_cases tells : ∃ start length, TellsRange text.toList start length ∧
        start < Nat.pow 2 32 ∧ length < Nat.pow 2 32
    · obtain ⟨start, length, tells, start_lt, length_lt⟩ := tells
      rw [parseRange_of_tells tells start_lt length_lt] at refused
      exact .inr ⟨start, length, tells, start_lt, length_lt, range_eq_error_iff.mp refused⟩
    · rw [parseRange_of_not_tells tells] at refused
      cases refused
      exact .inl ⟨rfl, tells⟩
  · rintro (⟨rfl, silent⟩ | ⟨start, length, tells, start_lt, length_lt, refused⟩)
    · exact parseRange_of_not_tells silent space
    · rw [parseRange_of_tells tells start_lt length_lt]
      exact range_eq_error_iff.mpr refused

/-- Range text. Every range reads back from what is written. A text reads as a range just if it tells two numbers that
are a range of the space, and then as that range; a text that does not tell two numbers of 32 bits is refused as such,
and any other for its start, or for its length if the start is inside the space. -/
theorem ranges_read :
    (∀ r : KeyRange, r.space.parseRange r.text = .ok r) ∧
    ∀ (space : KeySpace) (text : String),
      (∀ r, space.parseRange text = .ok r ↔ ∃ start length, TellsRange text.toList start length ∧
        start < space.length ∧ length ≤ space.length ∧ r.space = space ∧ r.start = start ∧ r.length = length) ∧
      (∀ e, space.parseRange text = .error e ↔
        e = .rangeText text ∧
          (¬ ∃ start length, TellsRange text.toList start length ∧ start < Nat.pow 2 32 ∧ length < Nat.pow 2 32) ∨
        ∃ start length, TellsRange text.toList start length ∧ start < Nat.pow 2 32 ∧ length < Nat.pow 2 32 ∧
          (space.length ≤ start ∧ e = .rangeStart start space.length ∨
            start < space.length ∧ space.length < length ∧ e = .rangeLength length space.length)) ∧
      (ArgumentError.rangeText text).detail = "Invalid key range '" ++ text ++ "'" := by
  refine ⟨fun r => ?_, fun space text => ⟨fun r => parseRange_eq_ok_iff, fun e => parseRange_eq_error_iff, rfl⟩⟩
  exact parseRange_eq_ok_iff.mpr ⟨_, _, tells_text r, r.start_lt, r.length_le, rfl, rfl, rfl⟩

/-- The plus sign that ranges are written with is dropped before a number is read, which may have one of its own. -/
example : standard.parseRange " [ +7 , ++010] " = .ok ⟨standard, 7, 10, by decide, by decide⟩ := by decide

end KeySpace
end ReplicaRing
