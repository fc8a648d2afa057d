import ReplicaRing.Proofs.Membership.Replay

/-! The record that stands. Whatever comes in between, reports on a node and its first contact alone decide
what is known of it: the earliest of the newest reports, or the placeholder before any. So what is known
has a source, is not forgotten, and grows no older once it is confirmed. -/
namespace ReplicaRing

def KeySpace.circle : KeySpace := ⟨8, by decide, by decide⟩

def NodeState.serving (host : String) (updated : UInt64) : NodeState :=
  ⟨⟨host, 1⟩, none, KeySpace.circle.fullRange, KeySpace.circle.fullRange, false, updated⟩

namespace View

def Event.states : Event → List NodeState
  | .merge _ m => m.states
  | _ => []

def Event.placeholder? (a : NodeAddress) : Event → Option NodeState
  | .contact now b range => if b = a then some (.placeholder a range now) else none
  | _ => none

theorem Event.of_placeholder? {event : Event} {a : NodeAddress} {s : NodeState}
    (made : event.placeholder? a = some s) :
    ∃ now range, event = .contact now a range ∧ s = .placeholder a range now := by
  cases event with
  | contact now b range =>
    simp only [placeholder?] at made
    split at made
    · rename_i here
      exact ⟨now, range, by rw [here], (Option.some.inj made).symm⟩
    · cases made
  | merge | start | stop | finish => cases made

def reports (events : List Event) : List NodeState := events.flatMap Event.states

def firstContact? (a : NodeAddress) (events : List Event) : Option NodeState :=
  events.findSome? (Event.placeholder? a)

/-- The record that reports on a node and its first contact lead to. -/
def standing (reports : List NodeState) (contact : Option NodeState) : Option Record :=
  match NodeState.newest? reports with
  | some s => some ⟨s, .confirmed⟩
  | none => contact.map fun s => ⟨s, .provisional⟩

def Settled (known : Option Record) (since : UInt64) : Prop :=
  ∃ s, known = some ⟨s, .confirmed⟩ ∧ since ≤ s.lastUpdated

section Standing

variable (heard : List NodeState) (contact : Option NodeState)

theorem take_standing (s : NodeState) :
    some (Record.take (standing heard contact) s) = standing (heard ++ [s]) contact := by
  rw [standing, standing, NodeState.newest?_concat]
  cases NodeState.newest? heard with
  | none => cases contact <;> rfl
  | some known => rfl

theorem foldl_take_standing (states : List NodeState) :
    states.foldl (fun known s => some (.take known s)) (standing heard contact) =
      standing (heard ++ states) contact := by
  induction states generalizing heard with
  | nil => simp
  | cons s states ih => rw [List.foldl_cons, take_standing, ih, List.append_assoc, List.singleton_append]

theorem standing_or (s : NodeState) :
    (standing heard contact).or (some ⟨s, .provisional⟩) = standing heard (contact.or (some s)) := by
  unfold standing
  cases NodeState.newest? heard with
  | none => cases contact <;> rfl
  | some known => rfl

/-- One event adds its reports, and its placeholder if it is the first. -/
theorem revise_standing (a : NodeAddress) (event : Event) :
    event.revise a (standing heard contact) =
      standing (heard ++ reportsOn a event.states) (contact.or (event.placeholder? a)) := by
  cases event with
  | contact now b range =>
    simp only [Event.revise, Event.states, Event.placeholder?, reportsOn, List.filter_nil, List.append_nil]
    split
    · exact standing_or ..
    · rw [Option.or_none]
  | merge now m => simpa [Event.revise, Event.states, Event.placeholder?] using foldl_take_standing ..
  | start | stop | finish => simp [Event.revise, Event.states, Event.placeholder?, reportsOn]

theorem foldl_revise_standing (a : NodeAddress) (events : List Event) :
    events.foldl (fun known event => event.revise a known) (standing heard contact) =
      standing (heard ++ reportsOn a (reports events)) (contact.or (firstContact? a events)) := by
  induction events generalizing heard contact with
  | nil => simp [reports, reportsOn, firstContact?]
  | cons event events ih =>
    rw [List.foldl_cons, revise_standing, ih]
    congr 1
    · simp [reports, reportsOn]
    · cases contact <;> cases made : event.placeholder? a <;> simp [firstContact?, made]

variable {heard contact} {a : NodeAddress} {known : Option Record} {s : NodeState}

theorem mem_of_standing {r : Record} (stands : standing heard contact = some r) :
    r.state ∈ heard ∨ contact = some r.state := by
  unfold standing at stands
  split at stands
  · rename_i s newest
    cases stands
    exact .inl (NodeState.mem_of_newest? newest)
  · obtain ⟨s, made, rfl⟩ := Option.map_eq_some_iff.mp stands
    exact .inr made

/-- With a report in hand what stands is confirmed, and no older. -/
theorem standing_of_mem (member : s ∈ heard) : Settled (standing heard contact) s.lastUpdated := by
  obtain ⟨s', newest⟩ := Option.ne_none_iff_exists'.mp
    (mt NodeState.newest?_eq_none.mp (List.ne_nil_of_mem member))
  exact ⟨s', by rw [standing, newest], NodeState.le_of_newest? newest member⟩

/-- Every record stands by the one state that it holds. -/
theorem exists_standing (known : Option Record) : ∃ heard contact, known = standing heard contact ∧
    (∀ s ∈ heard, known = some ⟨s, .confirmed⟩) ∧ ∀ s, contact = some s → known = some ⟨s, .provisional⟩ := by
  match known with
  | none => exact ⟨[], none, rfl, by simp, by simp⟩
  | some ⟨s, .confirmed⟩ => exact ⟨[s], none, rfl, by simp, by simp⟩
  | some ⟨s, .provisional⟩ => exact ⟨[], some s, rfl, by simp, by simp⟩

theorem revise_state {event : Event} {r : Record} (revised : event.revise a known = some r) :
    (∃ status, known = some ⟨r.state, status⟩) ∨ r.state ∈ reportsOn a event.states ∨
      event.placeholder? a = some r.state := by
  obtain ⟨heard, contact, rfl, reported, made⟩ := exists_standing known
  rw [revise_standing] at revised
  rcases mem_of_standing revised with member | found
  · rcases List.mem_append.mp member with before | now
    · exact .inl ⟨_, reported _ before⟩
    · exact .inr (.inl now)
  · cases contact with
    | some s => exact .inl ⟨_, made _ found⟩
    | none => exact .inr (.inr found)

theorem revise_settles {event : Event} (member : s ∈ reportsOn a event.states) :
    Settled (event.revise a known) s.lastUpdated := by
  obtain ⟨heard, contact, rfl, -, -⟩ := exists_standing known
  rw [revise_standing]
  exact standing_of_mem (List.mem_append_right heard member)

end Standing

end View

/-! ## Moving on -/

/-- What a record may become, sooner or later. -/
def Record.Leads (r r' : Record) : Prop :=
  r = r' ∨ r'.status = .confirmed ∧ (r.status = .provisional ∨ r.state.lastUpdated < r'.state.lastUpdated)

namespace Record

variable {r r' r'' : Record}

theorem Leads.trans (first : r.Leads r') (second : r'.Leads r'') : r.Leads r'' := by
  rcases first with rfl | ⟨confirmed, before⟩
  · exact second
  rcases second with rfl | ⟨confirmed', before'⟩
  · exact .inr ⟨confirmed, before⟩
  refine .inr ⟨confirmed', before.imp_right fun older => ?_⟩
  rcases before' with provisional | older'
  · cases confirmed.symm.trans provisional
  · exact UInt64.lt_trans older older'

/-- Nothing leads to a placeholder but itself. -/
theorem Leads.eq_of_provisional {s : NodeState} (leads : r.Leads ⟨s, .provisional⟩) : r = ⟨s, .provisional⟩ := by
  rcases leads with same | ⟨confirmed, _⟩
  · exact same
  · cases confirmed

theorem leads_take (r : Record) (s : NodeState) : r.Leads (.take (some r) s) := by
  obtain ⟨old, provisional | confirmed⟩ := r
  · exact .inr ⟨rfl, .inl rfl⟩
  · simp only [take, NodeState.renew]
    split
    · exact .inl rfl
    · rename_i newer
      exact .inr ⟨rfl, .inr (UInt64.not_le.mp newer)⟩

end Record

namespace View

variable {a : NodeAddress}

/-- A node is not forgotten, and the record on it only moves on. -/
theorem revise_leads (event : Event) (r : Record) : ∃ r', event.revise a (some r) = some r' ∧ r.Leads r' := by
  cases event with
  | contact now b range =>
    refine ⟨r, ?_, .inl rfl⟩
    simp only [Event.revise]
    split <;> rfl
  | merge now m =>
    simp only [Event.revise]
    refine List.foldlRecOn (motive := fun known => ∃ r', known = some r' ∧ r.Leads r') _ _ ⟨r, rfl, .inl rfl⟩ ?_
    rintro _ ⟨r', rfl, leads⟩ s _
    exact ⟨_, rfl, leads.trans (r'.leads_take s)⟩
  | start | stop | finish => exact ⟨r, rfl, .inl rfl⟩

theorem revise_settled {known : Option Record} {since : UInt64} (event : Event) (settled : Settled known since) :
    Settled (event.revise a known) since := by
  obtain ⟨s, rfl, late⟩ := settled
  obtain ⟨⟨s', status⟩, revised, leads⟩ := revise_leads (a := a) event ⟨s, .confirmed⟩
  rcases leads with same | ⟨confirmed, provisional | newer⟩
  · exact ⟨s, by rw [revised, same], late⟩
  · cases provisional
  · obtain rfl : status = .confirmed := confirmed
    exact ⟨s', revised, UInt64.le_of_lt (UInt64.lt_of_le_of_lt late newer)⟩

theorem replay_remembers {v : View} (events : List Event) (known : v.record? a ≠ none) :
    (v.replay events).record? a ≠ none := by
  by_cases ours : a = v.own.address
  · rwa [ours, (v.replay_frame events).ours, ← ours]
  · rw [replay_record? v events ours]
    refine List.foldlRecOn (motive := fun record => record ≠ none) events _ known fun record known event _ => ?_
    obtain ⟨r, rfl⟩ := Option.ne_none_iff_exists'.mp known
    obtain ⟨r', revised, _⟩ := revise_leads (a := a) event r
    simp [revised]

/-! ## Sources -/

/-- All that a view knows comes from some source, and it has no record on itself. -/
structure Traced (v : View) (own : NodeState) (source : NodeState → Prop) : Prop where
  owner : v.own = own
  ours : v.record? own.address = none
  known : ∀ a r, v.record? a = some r → r.state.address = a ∧ source r.state

section Traced

variable {v : View} {own : NodeState} {source : NodeState → Prop}

theorem apart_of_record? {a b : NodeAddress} {r : Record} (ours : v.record? b = none)
    (known : v.record? a = some r) : a ≠ b := by
  rintro rfl
  cases ours.symm.trans known

theorem Traced.apply {event : Event} (traced : v.Traced own source) (reported : ∀ s ∈ event.states, source s)
    (made : ∀ a s, event.placeholder? a = some s → source s) : (v.apply event).Traced own source := by
  have frame := v.apply_frame event
  have ours : (v.apply event).record? own.address = none := by
    rw [← traced.owner, frame.ours, traced.owner, traced.ours]
  refine ⟨frame.own.trans traced.owner, ours, fun a r known => ?_⟩
  have apart : a ≠ v.own.address := traced.owner ▸ apart_of_record? ours known
  rw [v.apply_record? event apart] at known
  rcases revise_state known with ⟨status, before⟩ | now | contact
  · exact traced.known a ⟨r.state, status⟩ before
  · obtain ⟨member, here⟩ := List.mem_filter.mp now
    exact ⟨by simpa using here, reported _ member⟩
  · obtain ⟨now, range, _, placeholder⟩ := Event.of_placeholder? contact
    exact ⟨by rw [placeholder, NodeState.placeholder], made a _ contact⟩

theorem Traced.reportsOn_peerStates (traced : v.Traced own source) (a : NodeAddress) :
    reportsOn a v.peerStates = (v.record? a).toList.map Record.state := by
  have here : ∀ entry ∈ v.peers.entries, decide (entry.2.state.address = a) = decide (entry.1 = a) := by
    intro entry member
    have known : v.record? entry.1 = some entry.2.record := by
      rw [record?, v.peers.get?_eq_some_iff.mpr member, Option.map_some]
    have addressed : entry.2.state.address = entry.1 := (traced.known _ _ known).1
    rw [addressed]
  rw [reportsOn, peerStates, List.filter_map, Function.comp_def, List.filter_congr here, v.peers.filter_entries,
    record?]
  cases v.peers.get? a <;> rfl

/-- All that a view tells comes from that source too, if what it says of itself does. -/
theorem Traced.message (traced : v.Traced own source) (origin : source own) (now : UInt64) :
    (v.message now).sender = own ∧ ∀ s ∈ (v.message now).states, source s := by
  refine ⟨traced.owner, fun s member => ?_⟩
  rcases List.mem_cons.mp member with rfl | peer
  · change source v.own
    rwa [traced.owner]
  · obtain ⟨a, status, known⟩ := mem_peerStates.mp peer
    exact (traced.known a _ known).2

end Traced

end View
end ReplicaRing
