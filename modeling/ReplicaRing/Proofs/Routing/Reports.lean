import Mathlib.Data.List.DropRight
import ReplicaRing.Proofs.Node.Newest
import ReplicaRing.Proofs.Routing.Transparency

/-! What a table knows of a node, in terms of what it was told. A removal forgets all before it, a direct
report overrides all before it, and from there on the earliest of the newest reports stands. Reports that
come in a batch are as good as their newest one, and so are hints. -/
namespace ReplicaRing

def ServerNode.Shows (n : ServerNode) (s : NodeState) : Prop :=
  n.placement = (s.active, s.passive, s.disabled) ∧ n.nodeFetched = s.lastUpdated

namespace RoutingTable

def Event.reportOn? (a : NodeAddress) : Event → Option NodeState
  | .direct b s _ _ _ => if b = a then some s else none
  | .indirect reporter s => if resolve reporter s = a then some s else none
  | _ => none

def Event.removes (a : NodeAddress) : Event → Bool
  | .remove b => b = a
  | _ => false

def Event.isDirect (a : NodeAddress) : Event → Bool
  | .direct b _ _ _ _ => b = a
  | _ => false

def sinceRemoval (a : NodeAddress) (events : List Event) : List Event := events.rtakeWhile fun e => !e.removes a

/-- The last direct report of a node, if there is one, and what happened since. -/
def sinceDirect (a : NodeAddress) (events : List Event) : List Event :=
  (events.rdropWhile fun e => !e.isDirect a).getLast?.toList ++ events.rtakeWhile fun e => !e.isDirect a

/-- The reports on a node since its last removal. -/
def reports (a : NodeAddress) (events : List Event) : List NodeState :=
  (sinceRemoval a events).filterMap (Event.reportOn? a)

/-- Of these, the last direct one and all later ones. -/
def standing (a : NodeAddress) (events : List Event) : List NodeState :=
  (sinceDirect a (sinceRemoval a events)).filterMap (Event.reportOn? a)

section Histories

variable (a : NodeAddress) (events : List Event) (event : Event)

theorem sinceRemoval_concat : sinceRemoval a (events ++ [event]) =
    if event.removes a then [] else sinceRemoval a events ++ [event] := by
  cases removes : event.removes a <;> simp [sinceRemoval, removes]

theorem sinceDirect_concat : sinceDirect a (events ++ [event]) =
    if event.isDirect a then [event] else sinceDirect a events ++ [event] := by
  cases direct : event.isDirect a <;> simp [sinceDirect, direct]

theorem reports_concat : reports a (events ++ [event]) =
    if event.removes a then [] else reports a events ++ (event.reportOn? a).toList := by
  unfold reports
  rw [sinceRemoval_concat]
  split
  · rfl
  · cases reported : event.reportOn? a <;> simp [reported]

theorem standing_concat : standing a (events ++ [event]) =
    if event.removes a then [] else
      if event.isDirect a then (event.reportOn? a).toList
      else standing a events ++ (event.reportOn? a).toList := by
  unfold standing
  rw [sinceRemoval_concat]
  split
  · rfl
  · rw [sinceDirect_concat]
    split <;> cases reported : event.reportOn? a <;> simp [reported]

end Histories

/-- Of what is reported since a removal something always stands. -/
theorem standing_eq_nil_iff (a : NodeAddress) (events : List Event) :
    standing a events = [] ↔ reports a events = [] := by
  induction events using List.reverseRecOn with
  | nil => exact Iff.rfl
  | append_singleton events event ih =>
    rw [standing_concat, reports_concat]
    cases direct : event.isDirect a with
    | false => simp [ih]
    | true =>
      cases event with
      | direct b s =>
        obtain rfl : b = a := by simpa [Event.isDirect] using direct
        simp [Event.removes, Event.reportOn?]
      | indirect | hint | remove | lookup => simp [Event.isDirect] at direct

section Standing

variable {a : NodeAddress} {n : ServerNode} {known : Option ServerNode}

@[simp] theorem shows_hint {s : NodeState} (request response available : UInt64) :
    (n.hint request response available).Shows s ↔ n.Shows s := by
  unfold ServerNode.hint
  split <;> rfl

/-- An event that is not about a node neither reports on it nor removes it. -/
theorem Event.silent {event : Event} (other : event.about? ≠ some a) :
    event.removes a = false ∧ event.isDirect a = false ∧ event.reportOn? a = none := by
  cases event with
  | direct b | indirect | remove b => simpa [about?, removes, isDirect, reportOn?] using other
  | hint | lookup => exact ⟨rfl, rfl, rfl⟩

/-- An event about a node that shows the newest state keeps it so. -/
theorem revise_shows {event : Event} {heard : List NodeState} (about : event.about? = some a)
    (shows : Option.Rel (fun s n => n.Shows s) (NodeState.newest? heard) known) :
    Option.Rel (fun s n => n.Shows s)
      (NodeState.newest? (if event.removes a then [] else
        if event.isDirect a then (event.reportOn? a).toList else heard ++ (event.reportOn? a).toList))
      (event.revise known) := by
  cases event with
  | direct b s request response cluster =>
    obtain rfl : b = a := by simpa [Event.about?] using about
    have newest : NodeState.newest? [s] = some s := rfl
    simpa [Event.removes, Event.isDirect, Event.reportOn?, newest] using .some ⟨rfl, rfl⟩
  | indirect reporter s =>
    have here : resolve reporter s = a := by simpa [Event.about?] using about
    simp only [Event.removes, Event.isDirect, Event.reportOn?, here, Bool.false_eq_true, if_false, if_true,
      Option.toList_some, NodeState.newest?_concat]
    generalize NodeState.newest? heard = newest at shows
    cases shows with
    | none => exact .some ⟨rfl, rfl⟩
    | some shown =>
      simp only [Event.revise, NodeState.renew, ← shown.2]
      split
      · exact .some shown
      · exact .some ⟨rfl, rfl⟩
  | hint b request response available =>
    simp only [Event.removes, Event.isDirect, Event.reportOn?, Bool.false_eq_true, if_false, Option.toList_none,
      List.append_nil]
    generalize NodeState.newest? heard = newest at shows ⊢
    cases shows with
    | none => exact .none
    | some shown => exact .some ((shows_hint ..).mpr shown)
  | remove b =>
    obtain rfl : b = a := by simpa [Event.about?] using about
    simpa [Event.removes] using .none
  | lookup => cases about

/-- A known node shows the newest of the reports that stand. -/
theorem replay_shows (space : KeySpace) (events : List Event) (a : NodeAddress) :
    Option.Rel (fun s n => n.Shows s) (NodeState.newest? (standing a events))
      ((replay space events).nodes.get? a) := by
  induction events using List.reverseRecOn with
  | nil => exact .none
  | append_singleton events event ih =>
    rw [replay_append, List.foldl_cons, List.foldl_nil, get?_apply, standing_concat]
    by_cases about : event.about? = some a
    · rw [if_pos about]
      exact revise_shows about ih
    · obtain ⟨removes, direct, silent⟩ := Event.silent about
      simpa [about, removes, direct, silent] using ih

/-- Reports on a node since its last removal make it known, and nothing else does. -/
theorem replay_get?_isSome_iff (space : KeySpace) (events : List Event) (a : NodeAddress) :
    ((replay space events).nodes.get? a).isSome ↔ reports a events ≠ [] := by
  have shows := replay_shows space events a
  rw [Ne, ← standing_eq_nil_iff, ← NodeState.newest?_eq_none]
  generalize NodeState.newest? (standing a events) = newest at shows ⊢
  generalize (replay space events).nodes.get? a = known at shows ⊢
  cases shows <;> simp

theorem replay_shows_of_get? {space : KeySpace} {events : List Event}
    (known : (replay space events).nodes.get? a = some n) :
    ∃ s, NodeState.newest? (standing a events) = some s ∧ n.Shows s := by
  have shows := replay_shows space events a
  rw [known] at shows
  generalize NodeState.newest? (standing a events) = newest at shows ⊢
  cases shows with
  | some shown => exact ⟨_, rfl, shown⟩

end Standing

section Batches

variable {known : Option ServerNode}

/-- What an indirect report makes of what is known of its node, whoever reports it. -/
def report (s : NodeState) (known : Option ServerNode) : Option ServerNode :=
  (Event.indirect s.address s).revise known

theorem revise_indirect (reporter : NodeAddress) (s : NodeState) :
    (Event.indirect reporter s).revise known = report s known := by
  cases known <;> rfl

theorem report_some (s : NodeState) (n : ServerNode) : report s (some n) =
    if s.lastUpdated ≤ n.nodeFetched then some n else some { n.place s with nodeFetched := s.lastUpdated } := rfl

theorem report_report (s s' : NodeState) : report s' (report s known) = report (s.renew s') known := by
  cases known with
  | none =>
    simp only [report, Event.revise, NodeState.renew]
    split <;> rfl
  | some n =>
    unfold NodeState.renew
    by_cases stale : s.lastUpdated ≤ n.nodeFetched <;> by_cases older : s'.lastUpdated ≤ s.lastUpdated
    · simp [report_some, stale, older, UInt64.le_trans older stale]
    · simp [report_some, stale, older]
    · simp [report_some, stale, older]
    · have newer : ¬ s'.lastUpdated ≤ n.nodeFetched := by
        simp only [UInt64.le_iff_toNat_le] at *
        omega
      simp [report_some, stale, older, newer, ServerNode.place]

theorem foldl_report (states : List NodeState) : states.foldl (fun known s => report s known) known =
    match NodeState.newest? states with
    | some s => report s known
    | none => known := by
  induction states using List.reverseRecOn with
  | nil => rfl
  | append_singleton states s ih =>
    rw [List.foldl_append, List.foldl_cons, List.foldl_nil, ih, NodeState.newest?_concat]
    cases NodeState.newest? states with
    | none => rfl
    | some newest => exact report_report newest s

variable {t : RoutingTable} {a : NodeAddress}

/-- Reports by any reporters, all on one node, as events. -/
theorem get?_foldl_indirect {batch : List (NodeAddress × NodeState)}
    (here : ∀ entry ∈ batch, resolve entry.1 entry.2 = a) :
    ((batch.map fun entry => Event.indirect entry.1 entry.2).foldl apply t).nodes.get? a =
      match NodeState.newest? (batch.map (·.2)) with
      | some s => report s (t.nodes.get? a)
      | none => t.nodes.get? a := by
  rw [← foldl_report]
  induction batch generalizing t with
  | nil => rfl
  | cons entry batch ih =>
    have about : (Event.indirect entry.1 entry.2).about? = some a := congrArg some (here entry (.head _))
    simp only [List.map_cons, List.foldl_cons]
    rw [ih fun entry member => here entry (.tail _ member), get?_apply, if_pos about, revise_indirect]

structure Hint where
  address : NodeAddress
  request : UInt64
  response : UInt64
  available : UInt64
deriving DecidableEq

def Hint.event (h : Hint) : Event := .hint h.address h.request h.response h.available

def latest? (a : NodeAddress) (hints : List Hint) : Option Hint :=
  (hints.filter (·.address = a)).argmax (·.response.toNat)

def Hint.later (h h' : Hint) : Hint := if h.response < h'.response then h' else h

theorem latest?_concat {hints : List Hint} {h : Hint} (here : h.address = a) : latest? a (hints ++ [h]) =
    some (match latest? a hints with
      | some known => known.later h
      | none => h) := by
  simp only [latest?, List.filter_append, List.filter_singleton, here, decide_true, cond_true,
    List.argmax_concat]
  cases (hints.filter (·.address = a)).argmax (·.response.toNat) with
  | none => rfl
  | some known =>
    simp only [Hint.later, UInt64.lt_iff_toNat_lt]
    split <;> rfl

theorem hint_hint (n : ServerNode) (h h' : Hint) :
    (n.hint h.request h.response h.available).hint h'.request h'.response h'.available =
      n.hint (h.later h').request (h.later h').response (h.later h').available := by
  unfold ServerNode.hint Hint.later
  by_cases first : n.responseReceived < h.response <;> by_cases later : h.response < h'.response
  · simp [first, later, UInt64.lt_trans first later]
  · simp [first, later]
  · simp [first, later]
  · have late : ¬ n.responseReceived < h'.response := by
      simp only [UInt64.lt_iff_toNat_lt] at *
      omega
    simp [first, later, late]

theorem get?_foldl_hint (hints : List Hint) : ((hints.map Hint.event).foldl apply t).nodes.get? a =
    match latest? a hints with
    | some h => (t.nodes.get? a).map (·.hint h.request h.response h.available)
    | none => t.nodes.get? a := by
  induction hints using List.reverseRecOn with
  | nil => rfl
  | append_singleton hints h ih =>
    rw [List.map_append, List.foldl_append, List.map_singleton, List.foldl_cons, List.foldl_nil, get?_apply, ih]
    by_cases here : h.address = a
    · have about : h.event.about? = some a := congrArg some here
      rw [if_pos about, latest?_concat here]
      cases latest? a hints with
      | none => rfl
      | some known =>
        simp only [Hint.event, Event.revise, Option.map_map, Function.comp_def, hint_hint]
    · have other : h.event.about? ≠ some a := fun about => here (Option.some.inj about)
      have same : latest? a (hints ++ [h]) = latest? a hints := by simp [latest?, here]
      rw [if_neg other, same]

end Batches

theorem replay_node? (space : KeySpace) (events : List Event) (a : NodeAddress) :
    (replay space events).node? a = (replay space events).nodes.get? a :=
  node?_eq (replay_listed space events) a

theorem node?_shows (space : KeySpace) {events : List Event} {a : NodeAddress} {s : NodeState}
    (newest : NodeState.newest? (standing a events) = some s) :
    ∃ n, (replay space events).node? a = some n ∧ n.Shows s := by
  have shows := replay_shows space events a
  rw [newest] at shows
  rw [replay_node?]
  generalize (replay space events).nodes.get? a = known at shows ⊢
  cases shows with
  | some shown => exact ⟨_, rfl, shown⟩

/-- How reports merge. A node is known if it was reported since its last removal, and shows the earliest of
the newest reports from its last direct one on; a batch of indirect reports on a node, no two equally new,
makes the same of it in any order and however often they are repeated; and of a number of hints the
earliest of the latest counts, if it is later than what was recorded. -/
theorem replay_merges (space : KeySpace) (events : List Event) (a : NodeAddress) :
    let t := replay space events
    ((t.node? a).isSome ↔ reports a events ≠ []) ∧
    (∀ n, t.node? a = some n → ∃ s, NodeState.newest? (standing a events) = some s ∧
      n.active = s.active ∧ n.passive = s.passive ∧ n.disabled = s.disabled ∧ n.nodeFetched = s.lastUpdated ∧
      n.total = s.active.union s.passive) ∧
    (∀ batch batch' : List (NodeAddress × NodeState), (∀ entry ∈ batch, resolve entry.1 entry.2 = a) →
      (∀ entry, entry ∈ batch ↔ entry ∈ batch') →
      (∀ entry ∈ batch, ∀ entry' ∈ batch, entry.2.lastUpdated = entry'.2.lastUpdated → entry.2 = entry'.2) →
      (replay space (events ++ batch.map fun entry => .indirect entry.1 entry.2)).node? a =
        (replay space (events ++ batch'.map fun entry => .indirect entry.1 entry.2)).node? a) ∧
    ∀ hints n, t.node? a = some n → (replay space (events ++ hints.map Hint.event)).node? a =
      match latest? a hints with
      | some h =>
        if n.responseReceived < h.response then
          some { n with requestSent := h.request, responseReceived := h.response, clusterAvailable := h.available }
        else some n
      | none => some n := by
  intro t
  have found (events) := replay_node? space events a
  refine ⟨?_, fun n known => ?_, fun batch batch' here same distinct => ?_, fun hints n known => ?_⟩
  · rw [found events]
    exact replay_get?_isSome_iff space events a
  · obtain ⟨s, newest, placed, fetched⟩ := replay_shows_of_get? ((found events).symm.trans known)
    simp only [ServerNode.placement, Prod.mk.injEq] at placed
    obtain ⟨active, passive, disabled⟩ := placed
    exact ⟨s, newest, active, passive, disabled, fetched, by rw [ServerNode.total, active, passive]⟩
  · have here' : ∀ entry ∈ batch', resolve entry.1 entry.2 = a :=
      fun entry member => here entry ((same entry).mpr member)
    have newest : NodeState.newest? (batch.map (·.2)) = NodeState.newest? (batch'.map (·.2)) := by
      refine NodeState.newest?_congr (fun s => by simp [same]) ?_
      intro s member s' member' equallyNew
      obtain ⟨entry, given, rfl⟩ := List.mem_map.mp member
      obtain ⟨entry', given', rfl⟩ := List.mem_map.mp member'
      exact distinct entry given entry' given' equallyNew
    rw [found, found, replay_append, replay_append, get?_foldl_indirect here, get?_foldl_indirect here', newest]
  · have known : t.nodes.get? a = some n := (found events).symm.trans known
    rw [found, replay_append, get?_foldl_hint, known]
    cases latest? a hints with
    | none => rfl
    | some h =>
      simp only [Option.map_some, ServerNode.hint]
      split <;> rfl

/-- A node that serves everything. -/
def everywhere (disabled : Bool) (updated : UInt64) : NodeState :=
  ⟨⟨"a", 1⟩, none, quarters.fullRange, quarters.fullRange, disabled, updated⟩

/-- It is removed once, then says of itself what is older than before, and another node says what is newer. -/
def reconsidered : List Event :=
  [.direct ⟨"a", 1⟩ (everywhere false 7) 1 2 3, .remove ⟨"a", 1⟩, .direct ⟨"a", 1⟩ (everywhere false 6) 4 5 6,
    .direct ⟨"a", 1⟩ (everywhere true 4) 7 8 9, .indirect ⟨"b", 1⟩ (everywhere false 5)]

/-- What the other node says then stands, though not against two newer reports in either order; and the
later of two hints is taken. -/
theorem reconsidered_merges :
    let newer : List (NodeAddress × NodeState) := [(⟨"b", 1⟩, everywhere true 8), (⟨"c", 1⟩, everywhere false 9)]
    let hints : List Hint := [⟨⟨"a", 1⟩, 10, 12, 5⟩, ⟨⟨"a", 1⟩, 11, 11, 7⟩]
    ∃ n, (replay quarters reconsidered).node? ⟨"a", 1⟩ = some n ∧ n.disabled = false ∧ n.nodeFetched = 5 ∧
      (replay quarters (reconsidered ++ newer.map fun entry => .indirect entry.1 entry.2)).node? ⟨"a", 1⟩ =
        (replay quarters (reconsidered ++ newer.reverse.map fun entry => .indirect entry.1 entry.2)).node? ⟨"a", 1⟩ ∧
      (replay quarters (reconsidered ++ hints.map Hint.event)).node? ⟨"a", 1⟩ =
        some { n with requestSent := 10, responseReceived := 12, clusterAvailable := 5 } := by
  intro newer hints
  obtain ⟨known, shows, batches, hinted⟩ := replay_merges quarters reconsidered ⟨"a", 1⟩
  obtain ⟨n, found⟩ := Option.isSome_iff_exists.mp (known.mpr (by decide))
  obtain ⟨s, newest, _, _, disabled, fetched, _⟩ := shows n found
  have stands : NodeState.newest? (standing ⟨"a", 1⟩ reconsidered) = some (everywhere false 5) := by decide
  obtain rfl : s = everywhere false 5 := Option.some.inj (newest.symm.trans stands)
  have received : n.responseReceived = 8 := by
    have at_8 : ((replay quarters reconsidered).node? ⟨"a", 1⟩).map (·.responseReceived) = some 8 := by decide
    simpa [found] using at_8
  refine ⟨n, found, disabled, fetched, batches newer newer.reverse (by decide) (by simp) (by decide), ?_⟩
  rw [hinted hints n found]
  have latest : latest? ⟨"a", 1⟩ hints = some ⟨⟨"a", 1⟩, 10, 12, 5⟩ := by decide
  rw [latest, received]
  rfl

end RoutingTable
end ReplicaRing
