import ReplicaRing.Proofs.Membership.Standing

/-! Servers that tell each other what they know. A placeholder travels like any other state, and the
receiver cannot tell it from a report: so what a server knows of another is what that one says of itself,
or what some contact made up with no earlier time. -/
namespace ReplicaRing

/-- The views of servers, and all messages that were made, the oldest first, each with its maker. -/
structure Cluster (ι : Type) where
  views : ι → View
  sent : List (ι × StatusMessage)

namespace Cluster

variable {ι : Type}

/-- A message may be delivered at any later time, any number of times or never. -/
inductive Event (ι : Type) where
  | contact (server : ι) (now : UInt64) (address : NodeAddress) (range : KeyRange)
  | announce (server : ι) (now : UInt64)
  | deliver (server : ι) (now : UInt64) (number : Nat)

def Event.madeUp? : Event ι → Option NodeState
  | .contact _ now a range => some (.placeholder a range now)
  | _ => none

def madeUp (events : List (Event ι)) : List NodeState := events.filterMap Event.madeUp?

def strangers (space : ι → KeySpace) (own : ι → NodeState) (updated : ι → UInt64) (hasRuntime : ι → Bool) :
    Cluster ι :=
  ⟨fun i => .make (space i) (own i) [] (updated i) (hasRuntime i), []⟩

section Applying

variable [DecidableEq ι]

def change (c : Cluster ι) (i : ι) (event : View.Event) : Cluster ι :=
  { c with views := fun j => if j = i then (c.views i).apply event else c.views j }

/-- No server merges a message of its own. -/
def apply (c : Cluster ι) : Event ι → Cluster ι
  | .contact i now a range => c.change i (.contact now a range)
  | .announce i now => { c with sent := c.sent ++ [(i, (c.views i).message now)] }
  | .deliver i now number =>
    match c.sent[number]? with
    | some (maker, m) => if maker = i then c else c.change i (.merge now m)
    | none => c

def replay (c : Cluster ι) (events : List (Event ι)) : Cluster ι := events.foldl apply c

end Applying

/-- All that servers know and tell comes from some source, and messages begin with their makers' own states. -/
structure Traced (c : Cluster ι) (own : ι → NodeState) (source : NodeState → Prop) : Prop where
  views : ∀ i, (c.views i).Traced (own i) source
  sent : ∀ i m, (i, m) ∈ c.sent → m.sender = own i ∧ ∀ s ∈ m.states, source s

section Running

variable [DecidableEq ι] {c : Cluster ι} {own : ι → NodeState} {source : NodeState → Prop} {i : ι}

theorem replay_append (c : Cluster ι) (before after : List (Event ι)) :
    c.replay (before ++ after) = (c.replay before).replay after := List.foldl_append

theorem Traced.change (traced : c.Traced own source) (i : ι) {event : View.Event}
    (reported : ∀ s ∈ event.states, source s) (made : ∀ a s, event.placeholder? a = some s → source s) :
    (c.change i event).Traced own source := by
  refine ⟨fun j => ?_, traced.sent⟩
  by_cases here : j = i
  · subst here
    simpa [Cluster.change] using (traced.views j).apply reported made
  · simpa [Cluster.change, here] using traced.views j

theorem Traced.apply {event : Event ι} (traced : c.Traced own source) (genuine : ∀ i, source (own i))
    (made : ∀ s, event.madeUp? = some s → source s) : (c.apply event).Traced own source := by
  cases event with
  | contact i now a range =>
    refine traced.change i (fun _ => List.not_mem_nil.elim) fun b s placeholder => ?_
    obtain ⟨_, _, same, rfl⟩ := View.Event.of_placeholder? placeholder
    cases same
    exact made _ rfl
  | announce i now =>
    refine ⟨traced.views, fun j m member => ?_⟩
    rcases List.mem_append.mp member with before | new
    · exact traced.sent j m before
    · obtain ⟨rfl, rfl⟩ := Prod.mk.inj (List.mem_singleton.mp new)
      exact (traced.views j).message (genuine j) now
  | deliver i now number =>
    simp only [Cluster.apply]
    split
    · rename_i maker m given
      split
      · exact traced
      · refine traced.change i (traced.sent maker m (List.mem_of_getElem? given)).2 fun a s placeholder => ?_
        cases placeholder
    · exact traced

theorem Traced.replay {events : List (Event ι)} (traced : c.Traced own source) (genuine : ∀ i, source (own i))
    (made : ∀ s ∈ madeUp events, source s) : (c.replay events).Traced own source := by
  refine List.foldlRecOn (motive := fun c : Cluster ι => c.Traced own source) events _ traced
    fun c traced event member => ?_
  exact traced.apply genuine fun s placeholder => made s (List.mem_filterMap.mpr ⟨event, member, placeholder⟩)

theorem apply_view (c : Cluster ι) (event : Event ι) (i : ι) :
    (c.apply event).views i = c.views i ∨ ∃ e, (c.apply event).views i = (c.views i).apply e := by
  have changed (j : ι) (e : View.Event) :
      (c.change j e).views i = c.views i ∨ ∃ e', (c.change j e).views i = (c.views i).apply e' := by
    by_cases here : i = j
    · subst here
      exact .inr ⟨e, by simp [Cluster.change]⟩
    · exact .inl (by simp [Cluster.change, here])
  cases event with
  | contact j now a range => exact changed ..
  | announce j now => exact .inl rfl
  | deliver j now number =>
    simp only [apply]
    split
    · split
      · exact .inl rfl
      · exact changed ..
    · exact .inl rfl

theorem replay_settled {a : NodeAddress} {since : UInt64} (events : List (Event ι))
    (apart : a ≠ (c.views i).own.address) (settled : View.Settled ((c.views i).record? a) since) :
    View.Settled (((c.replay events).views i).record? a) since := by
  induction events generalizing c with
  | nil => exact settled
  | cons event events ih =>
    rcases c.apply_view event i with same | ⟨e, changed⟩
    · exact ih (by rwa [same]) (by rwa [same])
    · refine ih (by rwa [changed, ((c.views i).apply_frame e).own]) ?_
      rw [changed, View.apply_record? _ e apart]
      exact View.revise_settled e settled

theorem delivered_settles {maker : ι} (now : UInt64) {number : Nat} {m : StatusMessage} {s : NodeState}
    (given : c.sent[number]? = some (maker, m)) (other : maker ≠ i) (member : s ∈ m.states)
    (apart : s.address ≠ (c.views i).own.address) (after : List (Event ι)) :
    View.Settled (((c.replay (.deliver i now number :: after)).views i).record? s.address) s.lastUpdated := by
  have merged : (c.apply (.deliver i now number)).views i = (c.views i).apply (.merge now m) := by
    simp [apply, given, other, change]
  refine replay_settled (c := c.apply (.deliver i now number)) after ?_ ?_
  · rwa [merged, ((c.views i).apply_frame _).own]
  · rw [merged, View.apply_record? _ _ apart]
    exact View.revise_settles (List.mem_filter.mpr ⟨member, by simp⟩)

end Running

section Outcome

variable (space : ι → KeySpace) (own : ι → NodeState) (updated : ι → UInt64) (hasRuntime : ι → Bool)

theorem strangers_traced (source : NodeState → Prop) : (strangers space own updated hasRuntime).Traced own source :=
  ⟨fun _ => ⟨rfl, rfl, fun _ _ known => nomatch known⟩, fun _ _ member => nomatch member⟩

variable [DecidableEq ι]

/-- All that servers know and tell is what some server says of itself or what some contact made up. -/
theorem replay_traced (events : List (Event ι)) :
    ((strangers space own updated hasRuntime).replay events).Traced own
      fun s => (∃ i, s = own i) ∨ s ∈ madeUp events :=
  (strangers_traced space own updated hasRuntime _).replay (fun i => .inl ⟨i, rfl⟩) fun _ member => .inr member

/-- Once a server has merged a message of another, its record on that one is confirmed for good. It holds
what the other says of itself, or what a contact made up with a time that is not earlier; and nothing that
the server ever merges about the other is later. So a placeholder with a later time prevails wherever it is
merged, and if there is none with a time as late, the other's own word stands. -/
theorem genuine_or_made_up_later (apart : ∀ i j, (own i).address = (own j).address → i = j)
    (before after : List (Event ι)) {i j : ι} (other : j ≠ i) (now : UInt64) {number : Nat} {m : StatusMessage}
    (given : ((strangers space own updated hasRuntime).replay before).sent[number]? = some (j, m)) :
    let events := before ++ .deliver i now number :: after
    let c := (strangers space own updated hasRuntime).replay events
    ∃ s, (c.views i).record? (own j).address = some ⟨s, .confirmed⟩ ∧
      (s = own j ∨ s ∈ madeUp events ∧ s.address = (own j).address ∧ (own j).lastUpdated ≤ s.lastUpdated) ∧
      ∀ first rest now' number' maker m' s', events = first ++ .deliver i now' number' :: rest →
        ((strangers space own updated hasRuntime).replay first).sent[number']? = some (maker, m') → maker ≠ i →
        s' ∈ m'.states → s'.address = (own j).address → s'.lastUpdated ≤ s.lastUpdated := by
  intro events c
  have traced (events) := replay_traced space own updated hasRuntime events
  have away (events) : (own j).address ≠
      (((strangers space own updated hasRuntime).replay events).views i).own.address := by
    rw [((traced events).views i).owner]
    exact fun same => other (apart j i same)
  obtain ⟨sender, _⟩ := (traced before).sent j m (List.mem_of_getElem? given)
  have told : own j ∈ m.states := sender ▸ .head _
  obtain ⟨s, known, late⟩ := delivered_settles now given other told (away before) after
  rw [← replay_append] at known
  refine ⟨s, known, ?_, ?_⟩
  · obtain ⟨here, ⟨k, rfl⟩ | made⟩ := ((traced events).views i).known _ _ known
    · exact .inl (congrArg own (apart k j here))
    · exact .inr ⟨made, here, late⟩
  · intro first rest now' number' maker m' s' split given' other' member' here'
    -- Any other delivery settles the same record in the end, so what it brought is no later than that.
    have settled := delivered_settles now' given' other' member' (here' ▸ away first) rest
    rw [← replay_append, ← split, here'] at settled
    obtain ⟨s'', known', late'⟩ := settled
    cases known.symm.trans known'
    exact late'

end Outcome

/-- Three servers; what the last says of itself is from time 10. -/
def trio : Cluster (Fin 3) :=
  let own : Fin 3 → NodeState
    | 0 => .serving "a" 1
    | 1 => .serving "b" 1
    | 2 => .serving "c" 10
  strangers (fun _ => .circle) own (fun _ => 0) fun _ => true

/-- The last makes contact with the second at time 20, and then both send a message. -/
def contactMade : List (Event (Fin 3)) :=
  [.contact 1 20 ⟨"c", 1⟩ KeySpace.circle.emptyRange, .announce 1 20, .announce 2 21]

/-- The first merges both messages, the second one's first: the record is made up. -/
theorem word_comes_late :
    let events := contactMade ++ [.deliver 0 22 0, .deliver 0 23 1]
    ∃ s, ((trio.replay events).views 0).record? ⟨"c", 1⟩ = some ⟨s, .confirmed⟩ ∧ s ∈ madeUp events ∧
      20 ≤ s.lastUpdated := by
  intro events
  let placeholder : NodeState := .placeholder ⟨"c", 1⟩ KeySpace.circle.emptyRange 20
  have given : (trio.replay (contactMade ++ [.deliver 0 22 0])).sent[1]? =
      some (2, ⟨21, 0, .serving "c" 10, []⟩) := by decide
  have relayed : (trio.replay contactMade).sent[0]? = some (1, ⟨20, 0, .serving "b" 1, [placeholder]⟩) := by decide
  obtain ⟨s, known, source, latest⟩ := genuine_or_made_up_later _ _ _ _ (by decide) _ [] (i := 0) (by decide) 23
    given
  have late : 20 ≤ s.lastUpdated := latest contactMade [.deliver 0 23 1] 22 0 1 _ placeholder rfl relayed
    (by decide) (.tail _ (.head _)) rfl
  rcases source with rfl | ⟨made, _⟩
  · exact absurd late (by decide)
  · exact ⟨s, known, made, late⟩

/-- Neither does the word of the last stand when it comes first. -/
theorem word_overruled :
    ((trio.replay contactMade).sent[1]?).map (·.2.sender) = some (.serving "c" 10) ∧
    ¬ ∀ after, ((trio.replay (contactMade ++ .deliver 0 22 1 :: after)).views 0).state? ⟨"c", 1⟩ =
      some (.serving "c" 10) := by
  refine ⟨by decide, fun stands => ?_⟩
  exact absurd (stands [.deliver 0 23 0]) (by decide)

end Cluster
end ReplicaRing
