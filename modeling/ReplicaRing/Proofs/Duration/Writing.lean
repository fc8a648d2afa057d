import ReplicaRing.Proofs.Duration.Reading

/-! How durations are written. A duration is divided among nine denominations, each taking as much as it can, and those
that take something are written in a row. The text stands for the duration, so that it is read back. -/
namespace ReplicaRing.Duration

/-- A unit of written durations, with its name for one and for more of it. -/
structure Denomination where
  one : String
  many : String
  nanos : Nat

def denominations : List Denomination :=
  let second := nanosPerSecond
  [⟨"year", "years", 31557600 * second⟩, ⟨"month", "months", 2630016 * second⟩, ⟨"day", "days", 86400 * second⟩,
   ⟨"h", "h", 3600 * second⟩, ⟨"m", "m", 60 * second⟩, ⟨"s", "s", second⟩,
   ⟨"ms", "ms", 1000000⟩, ⟨"us", "us", 1000⟩, ⟨"ns", "ns", 1⟩]

/-- Counts of denominations that make up a time, where what is left after each is less than one of it. -/
inductive Shares : Nat → List Denomination → List Nat → Prop where
  | done : Shares 0 [] []
  | count {time n rest : Nat} {u : Denomination} {us : List Denomination} {counts : List Nat}
      (made : time = n * u.nanos + rest) (fewer : rest < u.nanos) (shares : Shares rest us counts) :
      Shares time (u :: us) (n :: counts)

def Denomination.name (u : Denomination) (n : Nat) : String := if n = 1 then u.one else u.many

def Denomination.part (u : Denomination) (n : Nat) : Option String :=
  if n = 0 then none else some (toString n ++ u.name n)

/-- The text of a duration: that of zero, or the parts of its shares with a blank between them. -/
def Written (text : String) (d : Duration) : Prop :=
  d.nanos = 0 ∧ text = "0s" ∨
  d.nanos ≠ 0 ∧ ∃ counts, Shares d.nanos denominations counts ∧
    text = " ".intercalate ((List.zipWith Denomination.part denominations counts).filterMap id)

/-! ## Shares -/

theorem Shares.unique {time : Nat} {us : List Denomination} {counts counts' : List Nat} (shares : Shares time us counts)
    (shares' : Shares time us counts') : counts = counts' := by
  induction shares generalizing counts' with
  | done =>
    cases shares'
    rfl
  | count made fewer _ ih =>
    rename_i time n rest u _ counts _
    cases shares' with
    | count made' fewer' shares' =>
      rename_i n' rest' counts'
      have divided (n rest : Nat) (made : time = n * u.nanos + rest) (fewer : rest < u.nanos) :
          time / u.nanos = n ∧ time % u.nanos = rest :=
        (Nat.div_mod_unique (Nat.zero_lt_of_lt fewer)).mpr ⟨by rw [made, Nat.mul_comm, Nat.add_comm], fewer⟩
      obtain ⟨rfl, rfl⟩ := divided n rest made fewer
      obtain ⟨rfl, rfl⟩ := divided n' rest' made' fewer'
      rw [ih shares']

theorem seconds_lt {s n bound : Nat} (less : s < bound) (small : n < nanosPerSecond) :
    s * nanosPerSecond + n < bound * nanosPerSecond := by
  calc
    s * nanosPerSecond + n < (s + 1) * nanosPerSecond := by rw [Nat.add_mul]; omega
    _ ≤ bound * nanosPerSecond := Nat.mul_le_mul_right _ less

def counts (d : Duration) : List Nat :=
  let s := d.seconds
  let n := d.subsecond
  let inYear := s % secondsPerYear
  let inMonth := inYear % secondsPerMonth
  let inDay := inMonth % 86400
  [s / secondsPerYear, inYear / secondsPerMonth, inMonth / 86400, inDay / 3600, inDay % 3600 / 60, inDay % 60,
   n / 1000000, n / 1000 % 1000, n % 1000]

/-- Above the second it does not matter whether seconds are divided or nanoseconds. -/
theorem Shares.of_seconds {s n grains : Nat} {u : Denomination} {us : List Denomination} {counts : List Nat}
    (pos : 0 < grains) (whole : u.nanos = grains * nanosPerSecond) (small : n < nanosPerSecond)
    (shares : Shares (s % grains * nanosPerSecond + n) us counts) :
    Shares (s * nanosPerSecond + n) (u :: us) (s / grains :: counts) := by
  refine .count ?_ ?_ shares
  · rw [whole, ← Nat.mul_assoc, ← Nat.add_assoc, ← Nat.add_mul, Nat.div_add_mod']
  · rw [whole]
    exact seconds_lt (Nat.mod_lt s pos) small

theorem shares_counts (d : Duration) : Shares d.nanos denominations d.counts := by
  have small : d.subsecond < nanosPerSecond := Nat.mod_lt _ (by decide)
  have split : d.nanos = d.seconds * nanosPerSecond + d.subsecond := (Nat.div_add_mod' ..).symm
  have in_minute (s : Nat) : s % 3600 % 60 = s % 60 := by omega
  have below_minute (s : Nat) : Shares (s * nanosPerSecond + d.subsecond) (denominations.drop 5)
      [s, d.subsecond / 1000000, d.subsecond / 1000 % 1000, d.subsecond % 1000] := by
    have micros : d.subsecond % 1000000 = d.subsecond / 1000 % 1000 * 1000 + d.subsecond % 1000 := by omega
    exact .count rfl small (.count (Nat.div_add_mod' ..).symm (Nat.mod_lt _ (by decide))
      (.count micros (Nat.mod_lt _ (by decide)) (.count (Nat.mul_one _).symm Nat.one_pos .done)))
  rw [split, counts]
  refine .of_seconds (by decide) rfl small (.of_seconds (by decide) rfl small (.of_seconds (by decide) rfl small
    (.of_seconds (by decide) rfl small (.of_seconds (by decide) rfl small ?_))))
  rw [in_minute]
  exact below_minute _

theorem longPart_eq (name : String) (nanos n : Nat) :
    longPart name n = (Denomination.mk name (name ++ "s") nanos).part n := by
  unfold longPart Denomination.part Denomination.name
  split
  · rfl
  · split
    · rename_i single
      rw [single]
      rfl
    · exact congrArg some (String.append_assoc ..)

theorem shortPart_eq (name : String) (nanos n : Nat) : shortPart name n = (Denomination.mk name name nanos).part n := by
  simp only [shortPart, Denomination.part, Denomination.name, ite_self]
  rfl

theorem parts_eq (d : Duration) :
    d.parts = (List.zipWith Denomination.part denominations d.counts).filterMap id := by
  simp only [parts, longPart_eq _ 0, shortPart_eq _ 0]
  rfl

theorem written_iff {text : String} {d : Duration} : Written text d ↔ text = d.text := by
  unfold Written Duration.text
  split
  · rename_i zero
    simp [zero]
  · rename_i some_time
    simp only [some_time, false_and, ne_eq, not_false_eq_true, true_and, false_or, parts_eq]
    constructor
    · rintro ⟨counts, shares, rfl⟩
      rw [shares.unique d.shares_counts]
    · exact fun same => ⟨d.counts, d.shares_counts, same⟩

/-! ## Reading back -/

def joined (lead : List Char) : List String → List Char
  | [] => []
  | part :: parts => lead ++ part.toList ++ joined [' '] parts

theorem toList_intercalate_eq_joined (parts : List String) : (" ".intercalate parts).toList = joined [] parts := by
  have lead (lead : List Char) (part : String) (parts : List String) :
      lead ++ (" ".intercalate (part :: parts)).toList = joined lead (part :: parts) := by
    induction parts generalizing lead part with
    | nil => simp [joined]
    | cons next parts ih =>
      rw [joined, ← ih [' '] next, String.intercalate_cons_of_ne_nil (List.cons_ne_nil next parts)]
      simp
  cases parts with
  | nil => rfl
  | cons part parts => simpa using lead [] part parts

theorem filter_decimal (n : Nat) : (Text.decimal n).filter Char.isDigit = Text.decimal n :=
  List.filter_eq_self.mpr fun _ => Text.isDigit_of_mem_decimal

theorem loose_decimal {lead : List Char} (blank : ∀ c ∈ lead, Text.isBlank c = true) (n : Nat) :
    Loose (lead ++ Text.decimal n) ∧ numeral (lead ++ Text.decimal n) = n := by
  refine ⟨⟨fun c member => ?_, ?_⟩, ?_⟩
  · rcases List.mem_append.mp member with before | digit
    · exact .inr (blank c before)
    · exact .inl (Text.isDigit_of_mem_decimal digit)
  · obtain ⟨c, _, digits⟩ := List.exists_cons_of_ne_nil (Text.decimal_ne_nil n)
    have digit : c ∈ Text.decimal n := digits ▸ List.mem_cons_self
    exact ⟨c, List.mem_append_right _ digit, Text.isDigit_of_mem_decimal digit⟩
  · have no_digit : lead.filter Char.isDigit = [] := List.filter_eq_nil_iff.mpr fun c before digit =>
      Bool.false_ne_true ((Text.isBlank_of_isDigit digit).symm.trans (blank c before))
    rw [numeral, List.filter_append, no_digit, filter_decimal, List.nil_append, Text.decimal,
      Nat.ofDigitChars_toDigits (by decide) (by decide)]

theorem denomination_scale {u : Denomination} (known : u ∈ denominations) (n : Nat) :
    ∃ scale, scale? (u.name n) = some scale ∧ scale.nanos = u.nanos ∧
      (scale.grain = nanosPerSecond ∨ scale.grain = 1 ∧ u.nanos < nanosPerSecond) := by
  have all : ∀ u ∈ denominations, ∀ name ∈ [u.one, u.many], (scale? name).any (fun scale => scale.nanos = u.nanos ∧
      (scale.grain = nanosPerSecond ∨ scale.grain = 1 ∧ u.nanos < nanosPerSecond)) = true := by decide
  have named : u.name n ∈ [u.one, u.many] := by
    unfold Denomination.name
    split <;> simp
  simpa [Option.any_eq_true] using all u known _ named

/-- A time fits a word if it is counted in seconds, or in nanoseconds below the second. -/
theorem grains_lt {time grain grains : Nat} (counted : grain = nanosPerSecond ∨ grain = 1) (made : grains * grain = time)
    (fits : time < Nat.pow 2 64 * nanosPerSecond) (small : grain = 1 → time < nanosPerSecond) :
    grains < Nat.pow 2 64 := by
  rcases counted with rfl | rfl
  · rw [← made] at fits
    exact Nat.lt_of_mul_lt_mul_right fits
  · rw [Nat.mul_one] at made
    rw [made]
    exact Nat.lt_trans (small rfl) (by decide)

/-- A part of a text is a span, and there is room for it. -/
theorem exists_span {u : Denomination} (known : u ∈ denominations) (pos : 0 < u.nanos) (n : Nat) {lead : List Char}
    (blank : ∀ c ∈ lead, Text.isBlank c = true) {total : Nat}
    (room : total + n * u.nanos < Nat.pow 2 64 * nanosPerSecond)
    (below : u.nanos < nanosPerSecond → n * u.nanos < nanosPerSecond) :
    ∃ s : Span, s.chars = lead ++ (toString n ++ u.name n).toList ∧ s.Sound ∧
      Room total s.scale.grain s.wholeNanos ∧ s.fraction = none ∧ s.wholeNanos = n * u.nanos := by
  obtain ⟨scale, named, long, counted⟩ := denomination_scale known n
  obtain ⟨loose, value⟩ := loose_decimal blank n
  have grains : scale.nanos / scale.grain * scale.grain = u.nanos :=
    (Nat.div_mul_cancel (scale_grains named).1).trans long
  have some_grain : 0 < scale.nanos / scale.grain := Nat.pos_of_mul_pos_right (grains ▸ pos)
  have small : scale.grain = 1 → n * u.nanos < nanosPerSecond := by
    intro one
    rcases counted with second | ⟨-, short⟩
    · exact absurd (second.symm.trans one) (by decide)
    · exact below short
  have product_lt : n * (scale.nanos / scale.grain) < Nat.pow 2 64 :=
    grains_lt (counted.imp_right And.left) (by rw [Nat.mul_assoc, grains])
      (Nat.lt_of_le_of_lt (Nat.le_add_left ..) room) small
  have whole_nanos : numeral (lead ++ Text.decimal n) * scale.nanos = n * u.nanos := by rw [value, long]
  refine ⟨⟨lead ++ Text.decimal n, none, (u.name n).toList, scale⟩, ?_, ?_, ?_, rfl, whole_nanos⟩
  · simp [Span.chars, Span.number, Text.decimal, toString]
  · exact {
      known := by simpa using named
      whole := loose
      whole_lt := by
        rw [value]
        exact Nat.lt_of_le_of_lt (Nat.le_mul_of_pos_right n some_grain) product_lt
      product_lt := by rwa [value]
      fraction := fun _ given => by cases given }
  · rw [Span.wholeNanos, whole_nanos]
    exact .of_small small room

/-- The parts of a time add up to it. The `bounds` keep the shares of milliseconds and less below one second. -/
theorem Shares.sums {time : Nat} {us : List Denomination} {counts : List Nat} (shares : Shares time us counts)
    (known : ∀ u ∈ us, u ∈ denominations) {bound : Nat} (below : time < bound)
    (bounds : (bound :: us.map Denomination.nanos).IsChain fun bound nanos =>
      nanos < nanosPerSecond → bound ≤ nanosPerSecond)
    (lead : List Char) (blank : ∀ c ∈ lead, Text.isBlank c = true) (total : Nat)
    (room : total + time < Nat.pow 2 64 * nanosPerSecond) :
    ∃ row, Sums total row (total + time) ∧
      row.flatMap Span.chars = joined lead ((List.zipWith Denomination.part us counts).filterMap id) := by
  induction shares generalizing bound lead total with
  | done => exact ⟨[], .done total, rfl⟩
  | count made fewer _ ih =>
    rename_i time n rest u us counts _
    obtain ⟨here, others⟩ := List.forall_mem_cons.mp known
    obtain ⟨bounded, bounds⟩ := List.isChain_cons_cons.mp bounds
    by_cases none_there : n = 0
    · obtain rfl : time = rest := by simpa [none_there] using made
      simpa [none_there, Denomination.part] using ih others fewer bounds lead blank total room
    · have room' : total + n * u.nanos < Nat.pow 2 64 * nanosPerSecond := by omega
      obtain ⟨s, spelled, sound, fits, no_fraction, worth⟩ :=
        exists_span here (Nat.zero_lt_of_lt fewer) n blank room' (fun short => by have := bounded short; omega)
      have nothing_more : s.fractionNanos = 0 := by simp [Span.fractionNanos, no_fraction]
      have nanos : s.nanos = n * u.nanos := by simp [Span.nanos, nothing_more, worth]
      obtain ⟨row, sums, written⟩ :=
        ih others fewer bounds [' '] (by simp [Text.isBlank]) (total + s.nanos) (by omega)
      refine ⟨s :: row, .span sound fits (nothing_more ▸ fits.zero _) ?_, ?_⟩
      · have same : total + time = total + s.nanos + rest := by omega
        rwa [same]
      · simp [spelled, written, joined, Denomination.part, none_there]

theorem Sums.of_nil {total : Nat} (sums : Sums 0 [] total) : total = 0 := by
  cases sums
  rfl

theorem text_standsFor (d : Duration) : StandsFor d.text d := by
  unfold Duration.text
  split
  · rename_i zero
    have zero_read : ofText? "0s" = some ⟨0, by decide⟩ := by decide
    obtain ⟨_, _⟩ := d
    cases zero
    exact ofText?_eq_some_iff.mp zero_read
  · rename_i some_time
    obtain ⟨row, sums, written⟩ := d.shares_counts.sums (fun _ => id) d.inRange (by decide) [] (by simp) 0
      (by simpa using d.inRange)
    rw [Nat.zero_add] at sums
    refine .inr ⟨row, [], ?_, ?_, by simp, sums⟩
    · rintro rfl
      exact some_time sums.of_nil
    · rw [toList_intercalate_eq_joined, parts_eq, written, List.append_nil]

theorem ofText?_text (d : Duration) : ofText? d.text = some d := ofText?_eq_some_iff.mpr d.text_standsFor

end ReplicaRing.Duration
