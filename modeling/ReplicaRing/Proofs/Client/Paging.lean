import ReplicaRing.Client.Lister
import ReplicaRing.Proofs.Client.Absence
import ReplicaRing.Proofs.Operation.History

/-! Paging. Keys and their bytes determine each other, so where a listing goes on is known from the pages that were
returned; and each call of a page, to whatever node and in whatever round, passes on just that. -/
namespace ReplicaRing

variable {ω α σ τ : Type}

/-! ## Keys and bytes -/

theorem Utf8.decode_eq_ok_iff {bytes : ByteArray} {text : String} :
    Utf8.decode bytes = .ok text ↔ text.toUTF8 = bytes := by
  constructor
  · intro read
    rw [Utf8.decode, String.fromUTF8?] at read
    split at read
    · rename_i known found
      split at found
      · cases found
        cases read
        rfl
      · cases found
    · cases read
  · rintro rfl
    exact Utf8.decode_toUTF8 text

namespace RawKey

variable {raw : RawKey}

theorem toText_eq_ok_iff {key : String} : raw.toText = .ok key ↔ .ofText key = raw := by
  obtain ⟨bytes⟩ := raw
  have read : (RawKey.mk bytes).toText = .ok key ↔ Utf8.decode bytes = .ok key := by
    rw [toText]
    split <;> simp_all
  rw [read, Utf8.decode_eq_ok_iff, ofText, RawKey.mk.injEq]

/-- Bytes that no text encodes are an error. -/
theorem toText_of_foreign (foreign : ∀ key, RawKey.ofText key ≠ raw) :
    ∃ fault, raw.toText = .error (.rawKey fault) := by
  rw [toText]
  cases read : Utf8.decode raw.bytes with
  | ok key =>
    have text : raw.toText = .ok key := by rw [toText, read]
    exact absurd (toText_eq_ok_iff.mp text) (foreign key)
  | error fault => exact ⟨fault, rfl⟩

end RawKey

/-! ## Notes of calls -/

/-- A world with notes of the calls that were made in it: to whom, and after which key the page was to begin. -/
structure Noted (σ : Type) where
  outside : σ
  calls : List (NodeAddress × Option RawKey)

def Primitive.noting (call : Primitive σ α) (lastSeen : Option RawKey) : Primitive (Noted σ) α := fun world context =>
  let answer := call ⟨world.table, world.outside.outside⟩ context
  let note (w : Surroundings σ) : Surroundings (Noted σ) :=
    ⟨w.table, w.outside, world.outside.calls ++ [(context.address, lastSeen)]⟩
  ⟨note answer.accepted, answer.delay, note answer.done, answer.stops, answer.reply⟩

def Accessor.noting (a : Accessor σ) : Accessor (Noted σ) where
  get key range := Primitive.noting (a.get key range) none
  head key := Primitive.noting (a.head key) none
  info key := Primitive.noting (a.info key) none
  list stem kind max lastSeen := Primitive.noting (a.list stem kind max lastSeen) lastSeen
  delete key := Primitive.noting (a.delete key) none

def Moment.noting (m : Moment σ) : Moment (Noted σ) := ⟨m.timers, ⟨m.outside, []⟩, m.now, m.signal⟩

theorem Ending.ofAnswer_world (timers : Timers) (context : CallContext) (signal : StopSignal) (answer : Answer ω α) :
    (ofAnswer timers context signal answer).world = answer.accepted ∨
      (ofAnswer timers context signal answer).world = answer.done := by
  have left (world : ω) (signal : StopSignal) :
      (withoutReply (α := α) timers context world signal).world = world := by
    simp only [withoutReply]
    split <;> rfl
  simp only [ofAnswer]
  split
  · exact .inl (left ..)
  · cases answer.reply with
    | some result => exact .inr rfl
    | none =>
      dsimp only
      split
      · exact .inr rfl
      · exact .inr (left ..)

namespace Operation

section Notes

variable {β : Type} {network : Network ω α} (notes : ω → List β) (entry : NodeAddress → β)
  (each : ∀ world context, notes (network.call world context).accepted = notes world ++ [entry context.address] ∧
    notes (network.call world context).done = notes world ++ [entry context.address])
include each

theorem pass_notes (limits : Limits) (now : Nat) (outside : ω × StopSignal) (a : Attempt α) :
    notes ((beginning network limits now).pass outside a).1 =
      notes outside.1 ++ if a.called then [entry a.node.address] else [] := by
  rw [pass]
  split
  · obtain ⟨accepted, done⟩ := each outside.1 ((beginning network limits now).context a)
    rcases Ending.ofAnswer_world network.timers ((beginning network limits now).context a) outside.2
      ((beginning network limits now).answer outside.1 a) with early | late
    · exact (congrArg notes early).trans accepted
    · exact (congrArg notes late).trans done
  · rw [List.append_nil]

theorem run_notes (limits : Limits) (goal : Goal α) (nodes : List NodeAddress) (world : ω) (now : Nat)
    (signal : StopSignal) :
    let r := run network limits goal nodes world now signal
    notes r.world = notes world ++ (r.attempts.filter (·.called)).map (entry ·.node.address) := by
  intro r
  obtain ⟨e, steps, -, ends⟩ := run_steps network limits goal nodes world now signal
  have run : e.run = r := ends
  rw [← run]
  let accounts (r : Run ω α) : Prop :=
    notes r.world = notes world ++ (r.attempts.filter (·.called)).map (entry ·.node.address)
  refine steps.keeps (fun s => accounts s.run) (fun s t step noted => ?_)
    (by simp [accounts, Stage.start, Run.start, Run.attempts])
  dsimp only [accounts] at noted ⊢
  rcases step.attempts with ⟨same, -, outside⟩ | ⟨a, -, more, -, outside⟩
  · have world : t.run.world = s.run.world := congrArg Prod.fst outside
    rw [world, same, noted]
  · have world : t.run.world = ((beginning network limits now).pass s.run.outside a).1 := congrArg Prod.fst outside
    rw [world, pass_notes notes entry each, Run.outside, noted, more]
    cases called : a.called <;> simp [called]

end Notes

end Operation

/-- Each call that is made for a page goes on after the same key. -/
theorem Client.listPage_notes (c : Client) (a : Accessor σ) (stem : String) (kind : ListKind) (max : Nat)
    (lastSeen : Option RawKey) (m : Moment σ) :
    let r := c.listPage a.noting stem kind max lastSeen m.noting
    r.world.outside.calls = (r.attempts.filter (·.called)).map fun made => (made.node.address, lastSeen) := by
  refine (Operation.run_notes (fun world : Surroundings (Noted σ) => world.outside.calls) (·, lastSeen) ?_ ..).trans
    (List.nil_append _)
  exact fun _ _ => ⟨rfl, rfl⟩

/-! ## Pages -/

/-- A call for the next page. The client may have changed since the last one. -/
structure PageRequest (σ : Type) where
  client : Client
  accessor : Accessor σ
  max : Nat
  moment : Moment σ

def PageRequest.noting (q : PageRequest σ) : PageRequest (Noted σ) :=
  ⟨q.client, q.accessor.noting, q.max, q.moment.noting⟩

def PageTurn.returned? (t : PageTurn σ) : Option RawKey :=
  match t.result with
  | .ok result => Lister.pageEnd result
  | .error _ => none

namespace Lister

variable {l : Lister}

def turn (l : Lister) (q : PageRequest σ) : PageTurn σ := l.more q.client q.accessor q.max q.moment

def turns (l : Lister) : List (PageRequest σ) → List (PageTurn σ)
  | [] => []
  | q :: later => l.turn q :: (l.turn q).lister.turns later

def after (l : Lister) (past : List (PageRequest σ)) : Lister := past.foldl (fun l q => (l.turn q).lister) l

def cursor (l : Lister) : Option RawKey := l.lastSeen.map .ofText

/-- The page was asked for. The lister stays where it is unless a page is returned that ends with a key. -/
inductive Turned (l : Lister) (r : Run (Surroundings σ) ListPage) : PageTurn σ → Prop
  | unfound (nothing : r.goal.found? = none) : Turned l r ⟨l, some r, .ok r.result⟩
  | endless {page} (found : r.goal.found? = some page) (unended : page.value.lastSeen = none) :
      Turned l r ⟨l, some r, .ok r.result⟩
  | foreign {page raw fault} (found : r.goal.found? = some page) (ends : page.value.lastSeen = some raw)
      (foreign : ∀ key, .ofText key ≠ raw) : Turned l r ⟨l, some r, .error (.rawKey fault)⟩
  | moved {page key} (found : r.goal.found? = some page) (ends : page.value.lastSeen = some (.ofText key)) :
      Turned l r ⟨{ l with lastSeen := some key }, some r, .ok r.result⟩

theorem turn_none (l : Lister) {q : PageRequest σ} (none : q.max = 0) :
    l.turn q = ⟨l, Option.none, .error .nothingToList⟩ := if_pos none

theorem turn_turned (l : Lister) {q : PageRequest σ} (some : q.max ≠ 0) :
    l.Turned (q.client.listPage q.accessor l.stem l.kind q.max l.cursor q.moment) (l.turn q) := by
  simp only [turn, more, if_neg some, cursor]
  generalize q.client.listPage q.accessor l.stem l.kind q.max (l.lastSeen.map .ofText) q.moment = r
  cases found : r.goal.found? with
  | none =>
    have none : pageEnd r.result = none := by simp [pageEnd, Run.result, found]
    rw [none]
    exact .unfound found
  | some page =>
    have last : pageEnd r.result = page.value.lastSeen := by simp [pageEnd, Run.result, found]
    rw [last]
    cases ends : page.value.lastSeen with
    | none => exact .endless found ends
    | some raw =>
      cases read : raw.toText with
      | ok key =>
        obtain rfl := RawKey.toText_eq_ok_iff.mp read
        simp only [read]
        exact .moved found ends
      | error cause =>
        have foreign : ∀ key, RawKey.ofText key ≠ raw := by
          intro key same
          cases read.symm.trans (RawKey.toText_eq_ok_iff.mpr same)
        obtain ⟨fault, same⟩ := RawKey.toText_of_foreign foreign
        cases read.symm.trans same
        simp only [read]
        exact .foreign found ends foreign

section Turned

variable {r : Run (Surroundings σ) ListPage} {t : PageTurn σ}

theorem Turned.run (turned : l.Turned r t) : t.run = some r := by
  cases turned <;> rfl

theorem Turned.cursor (turned : l.Turned r t) : t.lister.cursor = t.returned?.or l.cursor := by
  cases turned with
  | unfound nothing => simp [PageTurn.returned?, pageEnd, Run.result, nothing]
  | endless found unended => simp [PageTurn.returned?, pageEnd, Run.result, found, unended]
  | foreign found ends foreign => rfl
  | moved found ends => simp [PageTurn.returned?, pageEnd, Run.result, found, ends, Lister.cursor]

theorem Turned.stem (turned : l.Turned r t) : t.lister.stem = l.stem ∧ t.lister.kind = l.kind := by
  cases turned <;> exact ⟨rfl, rfl⟩

end Turned

/-- The cursor moves to the end of the page that is returned, if there is one. -/
theorem turn_cursor (l : Lister) (q : PageRequest σ) :
    (l.turn q).lister.cursor = (l.turn q).returned?.or l.cursor := by
  by_cases none : q.max = 0
  · rw [l.turn_none none]
    rfl
  · exact (l.turn_turned none).cursor

theorem turn_stem (l : Lister) (q : PageRequest σ) :
    (l.turn q).lister.stem = l.stem ∧ (l.turn q).lister.kind = l.kind := by
  by_cases none : q.max = 0
  · rw [l.turn_none none]
    exact ⟨rfl, rfl⟩
  · exact (l.turn_turned none).stem

theorem after_stem (l : Lister) (past : List (PageRequest σ)) :
    (l.after past).stem = l.stem ∧ (l.after past).kind = l.kind := by
  induction past generalizing l with
  | nil => exact ⟨rfl, rfl⟩
  | cons q later ih =>
    obtain ⟨stem, kind⟩ := l.turn_stem q
    obtain ⟨later_stem, later_kind⟩ := ih (l.turn q).lister
    exact ⟨later_stem.trans stem, later_kind.trans kind⟩

/-- The cursor stands at the end of the last page that was returned and has one, and before any where it began. -/
theorem after_cursor (l : Lister) (past : List (PageRequest σ)) :
    (l.after past).cursor = ((l.turns past).filterMap PageTurn.returned?).getLast?.or l.cursor := by
  induction past generalizing l with
  | nil => rfl
  | cons q later ih =>
    have moved : (l.after (q :: later)).cursor = ((l.turn q).lister.after later).cursor := rfl
    rw [moved, ih, turn_cursor, turns, List.filterMap_cons]
    cases (l.turn q).returned? with
    | none => rw [Option.none_or]
    | some raw => cases last : (((l.turn q).lister.turns later).filterMap PageTurn.returned?).getLast? <;>
        simp [List.getLast?_cons, last]

/-- Paging never skips a page. Whatever was asked before, every call for the next page, to each node and in each round,
goes on after the bytes that ended the last page that was returned and had an end, or else after the key that the
lister began with, if any. The lister moves only to the end of a page that it returns: it stays where it is if there is
nothing to ask for, which is an error, if nothing is found, if the page has no end, and if that is no key, which is an
error in place of the page. -/
theorem paging (l : Lister) (past : List (PageRequest σ)) (q : PageRequest τ) :
    let now := l.after past
    let lastSeen := ((l.turns past).filterMap PageTurn.returned?).getLast?.or (l.lastSeen.map .ofText)
    (q.max = 0 → now.turn q = ⟨now, none, .error .nothingToList⟩) ∧
    (q.max ≠ 0 → now.Turned (q.client.listPage q.accessor l.stem l.kind q.max lastSeen q.moment) (now.turn q)) ∧
    (q.max ≠ 0 → ∃ r, (now.turn q.noting).run = some r ∧
      r.world.outside.calls = (r.attempts.filter (·.called)).map fun made => (made.node.address, lastSeen)) := by
  intro now lastSeen
  have cursor : now.cursor = lastSeen := l.after_cursor past
  obtain ⟨stem, kind⟩ : now.stem = l.stem ∧ now.kind = l.kind := l.after_stem past
  refine ⟨now.turn_none, fun some => ?_, fun some => ?_⟩
  · have turned := now.turn_turned some
    rwa [cursor, stem, kind] at turned
  · have run := (now.turn_turned (q := q.noting) some).run
    rw [cursor] at run
    exact ⟨_, run, q.client.listPage_notes ..⟩

def tornPages : Accessor Unit :=
  { plenty with
    list := fun _ _ _ lastSeen world _ =>
      let bytes : RawKey := if lastSeen.isNone then .ofText "b" else ⟨⟨#[0xFF]⟩⟩
      ⟨world, 0, world, false, some (.success ⟨[], some bytes⟩)⟩ }

/-- The second page is an error, and the third one is asked for from the end of the first one again. -/
theorem torn_page_asked_again :
    let l : Lister := ⟨"", .ids, none⟩
    let q : PageRequest Unit := ⟨oneNode, tornPages, 1, ⟨.prompt, (), 0, none⟩⟩
    q.max ≠ 0 ∧ (l.turns [q, q]).map PageTurn.returned? = [some (.ofText "b"), none] ∧
      ∃ r, ((l.after [q, q]).turn q.noting).run = some r ∧
        r.world.outside.calls =
          (r.attempts.filter (·.called)).map fun made => (made.node.address, some (.ofText "b")) := by
  intro l q
  obtain ⟨-, -, asked⟩ := paging l [q, q] q
  have returned : (l.turns [q, q]).map PageTurn.returned? = [some (.ofText "b"), none] := by decide +kernel
  have lastSeen : ((l.turns [q, q]).filterMap PageTurn.returned?).getLast?.or (l.lastSeen.map .ofText) =
      some (.ofText "b") := by decide +kernel
  rw [lastSeen] at asked
  exact ⟨by decide, returned, asked (by decide)⟩

end Lister

end ReplicaRing
