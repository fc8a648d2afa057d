import Mathlib.Data.List.Basic
import ReplicaRing.Duration.Reader
import ReplicaRing.Proofs.Text.Parts

/-! What texts of durations stand for. A text is a row of spans, each a whole number, perhaps a fraction, and a unit,
with blanks around digits; what it stands for is their sum. The reader accepts these texts, and among them those whose
numbers fit its words and whose fractions come out exact. -/
namespace ReplicaRing

namespace Text

theorem not_isUnitLetter {c : Char} (loose : c.isDigit = true ∨ isBlank c = true) :
    Duration.isUnitLetter c = false := by
  by_contra letter
  have within : 65 ≤ c.toNat ∧ c.toNat ≤ 90 ∨ 97 ≤ c.toNat ∧ c.toNat ≤ 122 ∨ c.toNat = 181 := by
    unfold Duration.isUnitLetter Char.isAlpha Char.isUpper Char.isLower at letter
    simp only [Bool.not_eq_false, Bool.or_eq_true, Bool.and_eq_true, decide_eq_true_eq, beq_iff_eq,
      UInt32.le_iff_toNat_le] at letter
    rcases letter with (upper | lower) | rfl
    · exact .inl upper
    · exact .inr (.inl lower)
    · exact .inr (.inr rfl)
  rcases loose with digit | blank
  · have digits : 48 ≤ c.toNat ∧ c.toNat ≤ 57 := by simpa [Char.isDigit, UInt32.le_iff_toNat_le] using digit
    omega
  · simp only [isBlank, Bool.or_eq_true, Bool.and_eq_true, decide_eq_true_eq, beq_iff_eq] at blank
    omega

end Text

namespace Duration

def Loose (text : List Char) : Prop :=
  (∀ c ∈ text, c.isDigit = true ∨ Text.isBlank c = true) ∧ ∃ c ∈ text, c.isDigit = true

def numeral (text : List Char) : Nat := Nat.ofDigitChars 10 (text.filter Char.isDigit) 0

def places (text : List Char) : Nat := (text.filter Char.isDigit).length

/-- A span as it stands in a text, with the scale of its unit. -/
structure Span where
  whole : List Char
  fraction : Option (List Char)
  unit : List Char
  scale : Scale

namespace Span

def number (s : Span) : List Char :=
  match s.fraction with
  | none => s.whole
  | some fraction => s.whole ++ '.' :: fraction

def chars (s : Span) : List Char := s.number ++ s.unit

def wholeNanos (s : Span) : Nat := numeral s.whole * s.scale.nanos

def fractionNanos (s : Span) : Nat :=
  match s.fraction with
  | none => 0
  | some fraction => numeral fraction * s.scale.nanos / Nat.pow 10 (places fraction)

def nanos (s : Span) : Nat := s.wholeNanos + s.fractionNanos

/-- The numbers of a span and their products with the unit fit words, and its fraction is exact: in nanoseconds for
units up to the minute, in seconds for longer ones. -/
structure Sound (s : Span) : Prop where
  known : scale? (String.ofList s.unit) = some s.scale
  whole : Loose s.whole
  whole_lt : numeral s.whole < Nat.pow 2 64
  product_lt : numeral s.whole * (s.scale.nanos / s.scale.grain) < Nat.pow 2 64
  fraction : ∀ fraction, s.fraction = some fraction → Loose fraction ∧
    ∃ grain, s.scale.fractionGrain = some grain ∧ Nat.pow 10 (places fraction) < Nat.pow 2 64 ∧
      numeral fraction * (s.scale.nanos / grain) < Nat.pow 2 64 ∧
      Nat.pow 10 (places fraction) ∣ numeral fraction * (s.scale.nanos / grain)

end Span

/-- Seconds fit a word, and so do nanoseconds while they are added. -/
def Room (total grain more : Nat) : Prop :=
  (grain = 1 → total % nanosPerSecond + more < Nat.pow 2 64) ∧ total + more < Nat.pow 2 64 * nanosPerSecond

inductive Sums : Nat → List Span → Nat → Prop where
  | done (total : Nat) : Sums total [] total
  | span {total total' : Nat} {s : Span} {row : List Span} (sound : s.Sound)
      (whole : Room total s.scale.grain s.wholeNanos)
      (fraction : Room (total + s.wholeNanos) (s.scale.fractionGrain.getD 1) s.fractionNanos)
      (rest : Sums (total + s.nanos) row total') : Sums total (s :: row) total'

/-- A text stands for the sum of its spans; a lone zero needs no unit. -/
def StandsFor (text : String) (d : Duration) : Prop :=
  text = "0" ∧ d.nanos = 0 ∨
  ∃ row blanks, row ≠ [] ∧ text.toList = row.flatMap Span.chars ++ blanks ∧
    (∀ c ∈ blanks, Text.isBlank c = true) ∧ Sums 0 row d.nanos

/-! ## Numbers -/

theorem word?_eq_some_iff {n m : Nat} : word? n = some m ↔ n < Nat.pow 2 64 ∧ n = m := by
  simp only [word?, Option.ite_none_right_eq_some, Option.some.injEq]

theorem looseDigits?_eq_some_iff {text digits : List Char} :
    looseDigits? text = some digits ↔ Loose text ∧ text.filter Char.isDigit = digits := by
  simp [looseDigits?, Loose]

theorem plus?_eq_some_iff {total grain more sum : Nat} :
    plus? total grain more = some sum ↔ Room total grain more ∧ total + more = sum := by
  simp only [plus?, Room, Option.ite_none_right_eq_some, Option.some.injEq]

theorem mem_scales {unit : String} {scale : Scale} (known : scale? unit = some scale) :
    ∃ names, (names, scale) ∈ scales ∧ unit ∈ names := by
  obtain ⟨⟨names, _⟩, found, rfl⟩ := Option.map_eq_some_iff.mp known
  exact ⟨names, List.mem_of_find?_eq_some found, by simpa using List.find?_some found⟩

/-- Units are whole in the grains that they are counted in. -/
theorem scale_grains {unit : String} {scale : Scale} (known : scale? unit = some scale) :
    scale.grain ∣ scale.nanos ∧ ∀ grain, scale.fractionGrain = some grain → grain ∣ scale.nanos := by
  have all : ∀ entry ∈ scales, entry.2.grain ∣ entry.2.nanos ∧
      ∀ grain ∈ entry.2.fractionGrain, grain ∣ entry.2.nanos := by decide
  obtain ⟨names, member, _⟩ := mem_scales known
  exact all _ member

theorem scale_letters {unit : String} {scale : Scale} (known : scale? unit = some scale) :
    unit.toList ≠ [] ∧ ∀ c ∈ unit.toList, isUnitLetter c = true := by
  have all : ∀ entry ∈ scales, ∀ name ∈ entry.1, name.toList ≠ [] ∧ name.toList.all isUnitLetter = true := by decide
  obtain ⟨names, member, named⟩ := mem_scales known
  obtain ⟨some_letter, letters⟩ := all _ member _ named
  exact ⟨some_letter, List.all_eq_true.mp letters⟩

theorem wholeNanos?_eq_some_iff {scale : Scale} {digits : List Char} {n : Nat} (even : scale.grain ∣ scale.nanos) :
    wholeNanos? scale digits = some n ↔
      Nat.ofDigitChars 10 digits 0 < Nat.pow 2 64 ∧
      Nat.ofDigitChars 10 digits 0 * (scale.nanos / scale.grain) < Nat.pow 2 64 ∧
      Nat.ofDigitChars 10 digits 0 * scale.nanos = n := by
  simp [wholeNanos?, Option.bind_eq_some_iff, word?_eq_some_iff, Nat.mul_assoc, Nat.div_mul_cancel even]

theorem fractionNanos?_eq_some_iff {scale : Scale} {digits : List Char} {n : Nat}
    (even : ∀ grain, scale.fractionGrain = some grain → grain ∣ scale.nanos) :
    fractionNanos? scale digits = some n ↔ ∃ grain, scale.fractionGrain = some grain ∧
      Nat.pow 10 digits.length < Nat.pow 2 64 ∧
      Nat.ofDigitChars 10 digits 0 * (scale.nanos / grain) < Nat.pow 2 64 ∧
      Nat.pow 10 digits.length ∣ Nat.ofDigitChars 10 digits 0 * (scale.nanos / grain) ∧
      Nat.ofDigitChars 10 digits 0 * scale.nanos / Nat.pow 10 digits.length = n := by
  have exact_grains (grain : Nat) (counted : scale.fractionGrain = some grain)
      (exact_there : Nat.pow 10 digits.length ∣ Nat.ofDigitChars 10 digits 0 * (scale.nanos / grain)) :
      Nat.ofDigitChars 10 digits 0 * (scale.nanos / grain) / Nat.pow 10 digits.length * grain =
        Nat.ofDigitChars 10 digits 0 * scale.nanos / Nat.pow 10 digits.length := by
    rw [Nat.div_mul_right_comm exact_there, Nat.mul_assoc, Nat.div_mul_cancel (even grain counted)]
  simp only [fractionNanos?, bind, Option.bind_eq_some_iff, word?_eq_some_iff, Option.ite_none_right_eq_some,
    Option.some.injEq, ← Nat.dvd_iff_mod_eq_zero]
  constructor
  · rintro ⟨grain, counted, _, ⟨small, rfl⟩, _, ⟨fits, rfl⟩, divides, same⟩
    exact ⟨grain, counted, small, fits, divides, exact_grains grain counted divides ▸ same⟩
  · rintro ⟨grain, counted, small, fits, divides, same⟩
    exact ⟨grain, counted, _, ⟨small, rfl⟩, _, ⟨fits, rfl⟩, divides, (exact_grains grain counted divides).trans same⟩

/-! ## Spans -/

theorem Loose.clear {text : List Char} (loose : Loose text) : ∀ c ∈ text, isUnitLetter c = false :=
  fun c member => Text.not_isUnitLetter (loose.1 c member)

theorem Loose.no_point {text : List Char} (loose : Loose text) : '.' ∉ text := fun member => by
  rcases loose.1 _ member with digit | blank
  · exact absurd digit (by decide)
  · exact absurd blank (by decide)

theorem Span.Sound.clear {s : Span} (sound : s.Sound) : ∀ c ∈ s.number, isUnitLetter c = false := by
  intro c member
  unfold Span.number at member
  split at member
  · exact sound.whole.clear c member
  · rename_i fraction given
    rcases List.mem_append.mp member with whole | later
    · exact sound.whole.clear c whole
    · rcases List.mem_cons.mp later with rfl | later
      · decide
      · exact (sound.fraction _ given).1.clear c later

/-- There is room for less than a second of nanoseconds while the seconds fit. -/
theorem Room.of_small {total grain more : Nat} (small : grain = 1 → more < nanosPerSecond)
    (fits : total + more < Nat.pow 2 64 * nanosPerSecond) : Room total grain more := by
  refine ⟨fun one => ?_, fits⟩
  have left : total % nanosPerSecond < nanosPerSecond := Nat.mod_lt _ (by decide)
  exact Nat.lt_trans (Nat.add_lt_add left (small one)) (by decide)

theorem Room.zero {total grain more : Nat} (room : Room total grain more) (grain' : Nat) :
    Room (total + more) grain' 0 :=
  .of_small (fun _ => by decide) room.2

/-- A span is added if it is sound and there is room for it. -/
theorem addSpan?_eq_some_iff {total total' : Nat} {number unit : List Char} :
    addSpan? total number unit = some total' ↔ ∃ s : Span, s.number = number ∧ s.unit = unit ∧ s.Sound ∧
      Room total s.scale.grain s.wholeNanos ∧
      Room (total + s.wholeNanos) (s.scale.fractionGrain.getD 1) s.fractionNanos ∧ total + s.nanos = total' := by
  simp only [addSpan?, bind, Option.bind_eq_some_iff]
  constructor
  · rintro ⟨scale, known, added⟩
    obtain ⟨even, even'⟩ := scale_grains known
    split at added
    · simp only [Option.bind_eq_some_iff, looseDigits?_eq_some_iff, wholeNanos?_eq_some_iff even,
        plus?_eq_some_iff] at added
      obtain ⟨_, ⟨loose, rfl⟩, _, ⟨small, fits, rfl⟩, room, rfl⟩ := added
      exact ⟨⟨number, none, unit, scale⟩, rfl, rfl, ⟨known, loose, small, fits, nofun⟩, room, room.zero _, rfl⟩
    · rename_i whole fraction cut
      obtain ⟨rfl, _⟩ := Text.splitFirst_eq_some_iff.mp cut
      simp only [Option.bind_eq_some_iff, looseDigits?_eq_some_iff, wholeNanos?_eq_some_iff even,
        fractionNanos?_eq_some_iff even', plus?_eq_some_iff] at added
      obtain ⟨_, ⟨loose, rfl⟩, _, ⟨small, fits, rfl⟩, _, ⟨room, rfl⟩, _, ⟨loose', rfl⟩, _,
        ⟨grain, counted, small', fits', divides, rfl⟩, room', rfl⟩ := added
      refine ⟨⟨whole, some fraction, unit, scale⟩, rfl, rfl, ⟨known, loose, small, fits, ?_⟩, room, room',
        (Nat.add_assoc ..).symm⟩
      rintro _ ⟨⟩
      exact ⟨loose', grain, counted, small', fits', divides⟩
  · rintro ⟨s, rfl, rfl, sound, room, room', rfl⟩
    obtain ⟨even, even'⟩ := scale_grains sound.known
    refine ⟨s.scale, sound.known, ?_⟩
    obtain ⟨whole, _ | fraction, unit, scale⟩ := s
    · have uncut : Text.splitFirst '.' whole = none := Text.splitFirst_eq_none.mpr sound.whole.no_point
      simp only [Span.number, uncut, Option.bind_eq_some_iff, looseDigits?_eq_some_iff, wholeNanos?_eq_some_iff even,
        plus?_eq_some_iff]
      exact ⟨_, ⟨sound.whole, rfl⟩, _, ⟨sound.whole_lt, sound.product_lt, rfl⟩, room, rfl⟩
    · have cut : Text.splitFirst '.' (whole ++ '.' :: fraction) = some (whole, fraction) :=
        Text.splitFirst_eq_some_iff.mpr ⟨rfl, sound.whole.no_point⟩
      obtain ⟨loose', grain, counted, small', fits', divides⟩ := sound.fraction _ rfl
      simp only [Span.number, cut, Option.bind_eq_some_iff, looseDigits?_eq_some_iff, wholeNanos?_eq_some_iff even,
        fractionNanos?_eq_some_iff even', plus?_eq_some_iff]
      exact ⟨_, ⟨sound.whole, rfl⟩, _, ⟨sound.whole_lt, sound.product_lt, rfl⟩, _, ⟨room, rfl⟩, _, ⟨loose', rfl⟩, _,
        ⟨grain, counted, small', fits', divides, rfl⟩, room', Nat.add_assoc ..⟩

/-! ## Cutting a text -/

theorem spans_cons_clear {c : Char} {rest number unit : List Char} {more : List (List Char × List Char)}
    (clear : isUnitLetter c = false) (cut : spans rest = (number, unit) :: more) :
    spans (c :: rest) = (c :: number, unit) :: more := by
  simp only [spans, clear, cut]

theorem spans_cons_letter {c : Char} {rest unit : List Char} {more : List (List Char × List Char)}
    (letter : isUnitLetter c = true) (cut : spans rest = ([], unit) :: more) :
    spans (c :: rest) = ([], c :: unit) :: more := by
  simp only [spans, letter, cut]

/-- A text that does not go on with a letter starts a piece of its own. -/
theorem spans_cons_last {c : Char} {rest : List Char} (letter : isUnitLetter c = true)
    (ends : ∀ d ∈ rest.head?, isUnitLetter d = false) : spans (c :: rest) = ([], [c]) :: spans rest := by
  have other : ∀ unit more, spans rest ≠ ([], unit) :: more := by
    intro unit more cut
    cases rest with
    | nil => simp [spans] at cut
    | cons d rest =>
      have clear : isUnitLetter d = false := ends d (by simp)
      cases behind : spans rest with
      | nil => simp [spans, clear, behind] at cut
      | cons piece pieces => simp [spans_cons_clear clear behind] at cut
  simp only [spans, letter]

theorem spans_unit {unit rest : List Char} (some_letter : unit ≠ []) (letters : ∀ c ∈ unit, isUnitLetter c = true)
    (ends : ∀ d ∈ rest.head?, isUnitLetter d = false) : spans (unit ++ rest) = ([], unit) :: spans rest := by
  induction unit with
  | nil => contradiction
  | cons c unit ih =>
    have letter : isUnitLetter c = true := letters c List.mem_cons_self
    cases unit with
    | nil => exact spans_cons_last letter ends
    | cons c' unit =>
      exact spans_cons_letter letter (ih (by simp) fun d known => letters d (List.mem_cons_of_mem _ known))

theorem spans_span {number unit rest : List Char} (clear : ∀ c ∈ number, isUnitLetter c = false)
    (some_letter : unit ≠ []) (letters : ∀ c ∈ unit, isUnitLetter c = true)
    (ends : ∀ d ∈ rest.head?, isUnitLetter d = false) :
    spans (number ++ unit ++ rest) = (number, unit) :: spans rest := by
  induction number with
  | nil => exact spans_unit some_letter letters ends
  | cons c number ih =>
    exact spans_cons_clear (clear c List.mem_cons_self) (ih fun d known => clear d (List.mem_cons_of_mem _ known))

theorem spans_clear {text : List Char} (some_there : text ≠ []) (clear : ∀ c ∈ text, isUnitLetter c = false) :
    spans text = [(text, [])] := by
  induction text with
  | nil => contradiction
  | cons c rest ih =>
    have first : isUnitLetter c = false := clear c List.mem_cons_self
    cases rest with
    | nil => simp [spans, first]
    | cons d rest =>
      exact spans_cons_clear first (ih (by simp) fun e known => clear e (List.mem_cons_of_mem _ known))

theorem flatMap_spans (text : List Char) : (spans text).flatMap (fun (number, unit) => number ++ unit) = text := by
  induction text with
  | nil => rfl
  | cons c rest ih =>
    cases letter : isUnitLetter c with
    | false =>
      cases cut : spans rest with
      | nil => simp_all [spans]
      | cons piece more => simp_all [spans_cons_clear letter cut]
    | true =>
      simp only [spans, letter]
      split <;> simp_all

def Span.piece (s : Span) : List Char × List Char := (s.number, s.unit)

def trail (blanks : List Char) : List (List Char × List Char) := if blanks = [] then [] else [(blanks, [])]

theorem Span.Sound.letters {s : Span} (sound : s.Sound) : s.unit ≠ [] ∧ ∀ c ∈ s.unit, isUnitLetter c = true := by
  simpa using scale_letters sound.known

theorem Span.Sound.number_ne_nil {s : Span} (sound : s.Sound) : s.number ≠ [] := by
  obtain ⟨c, member, _⟩ := sound.whole.2
  obtain ⟨whole, _ | fraction, unit, scale⟩ := s
  · exact List.ne_nil_of_mem member
  · exact List.ne_nil_of_mem (List.mem_append_left _ member)

theorem Sums.sound {total total' : Nat} {row : List Span} (sums : Sums total row total') : ∀ s ∈ row, s.Sound := by
  induction sums with
  | done => simp
  | span sound _ _ _ ih => exact List.forall_mem_cons.mpr ⟨sound, ih⟩

theorem spans_row {row : List Span} {blanks : List Char} (sound : ∀ s ∈ row, s.Sound)
    (blank : ∀ c ∈ blanks, Text.isBlank c = true) :
    spans (row.flatMap Span.chars ++ blanks) = row.map Span.piece ++ trail blanks := by
  have blanks_clear : ∀ c ∈ blanks, isUnitLetter c = false :=
    fun c member => Text.not_isUnitLetter (.inr (blank c member))
  induction row with
  | nil =>
    by_cases none_there : blanks = []
    · simp [none_there, trail, spans]
    · simp [trail, none_there, spans_clear none_there blanks_clear]
  | cons s row ih =>
    obtain ⟨first, others⟩ := List.forall_mem_cons.mp sound
    have ends : ∀ d ∈ (row.flatMap Span.chars ++ blanks).head?, isUnitLetter d = false := by
      intro d head
      cases row with
      | nil => exact blanks_clear d (List.mem_of_mem_head? head)
      | cons next row =>
        have numbered := (others next List.mem_cons_self)
        obtain ⟨c, number, starts⟩ := List.exists_cons_of_ne_nil numbered.number_ne_nil
        obtain rfl : c = d := by simpa [Span.chars, starts] using head
        exact numbered.clear c (by simp [starts])
    have cut := spans_span first.clear first.letters.1 first.letters.2 ends
    simpa [Span.chars, Span.piece, ih others] using cut

/-! ## Sums -/

/-- The pieces of a text add up if they are spans that do, and blanks after them. -/
theorem sumSpans?_eq_some_iff {total total' : Nat} {pieces : List (List Char × List Char)} :
    sumSpans? total pieces = some total' ↔ ∃ row tail, Sums total row total' ∧ pieces = row.map Span.piece ++ tail ∧
      (tail = [] ∨ ∃ blanks, (∀ c ∈ blanks, Text.isBlank c = true) ∧ tail = [(blanks, [])]) := by
  induction pieces generalizing total with
  | nil =>
    simp only [sumSpans?, Option.some.injEq]
    constructor
    · rintro rfl
      exact ⟨[], [], .done _, rfl, .inl rfl⟩
    · rintro ⟨row, tail, sums, cut, -⟩
      cases row with
      | nil =>
        cases sums
        rfl
      | cons => cases cut
  | cons piece more ih =>
    obtain ⟨number, unit⟩ := piece
    simp only [sumSpans?]
    split
    · rename_i last
      obtain ⟨⟨rfl, rfl⟩, blank⟩ : (more = [] ∧ unit = []) ∧ ∀ c ∈ number, Text.isBlank c = true := by simpa using last
      constructor
      · rintro ⟨⟩
        exact ⟨[], [(number, [])], .done _, rfl, .inr ⟨number, blank, rfl⟩⟩
      · rintro ⟨row, tail, sums, cut, -⟩
        cases sums with
        | done => rfl
        | span sound _ _ _ =>
          obtain ⟨⟨-, no_unit⟩, -⟩ := by simpa [Span.piece, eq_comm] using cut
          exact absurd no_unit sound.letters.1
    · rename_i further
      simp only [bind, Option.bind_eq_some_iff, addSpan?_eq_some_iff, ih]
      constructor
      · rintro ⟨_, ⟨s, rfl, rfl, sound, whole, fraction, rfl⟩, row, tail, sums, rfl, trailing⟩
        exact ⟨s :: row, tail, .span sound whole fraction sums, rfl, trailing⟩
      · rintro ⟨row, tail, sums, cut, trailing⟩
        cases sums with
        | done =>
          -- a piece of blanks alone would be the last one
          rcases trailing with rfl | ⟨blanks, blank, rfl⟩
          · cases cut
          · cases cut
            exact absurd (by simpa using blank) further
        | span sound whole fraction rest =>
          cases cut
          exact ⟨_, ⟨_, rfl, rfl, sound, whole, fraction, rfl⟩, _, tail, rest, rfl, trailing⟩

theorem ofNanos?_eq_some_iff {n : Nat} {d : Duration} : ofNanos? n = some d ↔ d.nanos = n := by
  obtain ⟨nanos, inRange⟩ := d
  simp only [ofNanos?, Option.dite_none_right_eq_some, Option.some.injEq, Duration.mk.injEq]
  constructor
  · rintro ⟨_, rfl⟩
    rfl
  · rintro rfl
    exact ⟨inRange, rfl⟩

theorem exists_letter {row : List Span} (some_span : row ≠ []) (sound : ∀ s ∈ row, s.Sound) (blanks : List Char) :
    ∃ c ∈ row.flatMap Span.chars ++ blanks, isUnitLetter c = true := by
  obtain ⟨s, row, rfl⟩ := List.exists_cons_of_ne_nil some_span
  obtain ⟨some_letter, letters⟩ := (sound s List.mem_cons_self).letters
  obtain ⟨c, unit, spelled⟩ := List.exists_cons_of_ne_nil some_letter
  exact ⟨c, by simp [Span.chars, spelled], letters c (by simp [spelled])⟩

/-- A text is read as what it stands for, and no other text is read. -/
theorem ofText?_eq_some_iff {text : String} {d : Duration} : ofText? text = some d ↔ StandsFor text d := by
  unfold ofText?
  constructor
  · intro read
    split at read
    · rename_i zero
      cases read
      exact .inl ⟨zero, rfl⟩
    · split at read
      · contradiction
      · rename_i not_blank
        simp only [Option.bind_eq_some_iff, sumSpans?_eq_some_iff, ofNanos?_eq_some_iff] at read
        obtain ⟨_, ⟨row, tail, sums, cut, trailing⟩, rfl⟩ := read
        have joined := flatMap_spans text.toList
        simp only [cut, List.flatMap_append, List.flatMap_map] at joined
        obtain ⟨blanks, blank, rest⟩ : ∃ blanks : List Char, (∀ c ∈ blanks, Text.isBlank c = true) ∧
            tail.flatMap (fun (number, unit) => number ++ unit) = blanks := by
          rcases trailing with rfl | ⟨blanks, blank, rfl⟩
          · exact ⟨[], by simp, rfl⟩
          · exact ⟨blanks, blank, by simp⟩
        rw [rest] at joined
        refine .inr ⟨row, blanks, ?_, joined.symm, blank, sums⟩
        rintro rfl
        rw [← joined] at not_blank
        exact not_blank (by simpa using blank)
  · rintro (⟨rfl, zero⟩ | ⟨row, blanks, some_span, spelled, blank, sums⟩)
    · obtain ⟨_, inRange⟩ := d
      cases zero
      rfl
    · obtain ⟨c, member, letter⟩ := exists_letter some_span sums.sound blanks
      rw [← spelled] at member
      have not_zero : text ≠ "0" := by
        rintro rfl
        obtain rfl : c = '0' := by simpa using member
        exact absurd letter (by decide)
      have not_blank : ¬ text.toList.all Text.isBlank = true := by
        intro all_blank
        have clear := Text.not_isUnitLetter (.inr (List.all_eq_true.mp all_blank c member))
        exact Bool.false_ne_true (clear.symm.trans letter)
      rw [if_neg not_zero, if_neg not_blank, spelled, spans_row sums.sound blank]
      simp only [Option.bind_eq_some_iff, sumSpans?_eq_some_iff, ofNanos?_eq_some_iff]
      refine ⟨_, ⟨row, trail blanks, sums, rfl, ?_⟩, rfl⟩
      unfold trail
      split
      · exact .inl rfl
      · exact .inr ⟨blanks, blank, rfl⟩

end Duration
end ReplicaRing
