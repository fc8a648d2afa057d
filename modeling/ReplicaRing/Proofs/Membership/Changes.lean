import ReplicaRing.Proofs.Membership.Standing

/-! What merges count and when the time of the last update moves. A record only moves on, so changes never cancel
out: a merge counts none just if it leaves every record, and then it leaves the whole view. A merged message has
nothing more to say. Merges that change something note their time; contacts add a peer and note none. -/
namespace ReplicaRing

namespace Record

variable {r r' : Record} {known known' known'' : Option Record}

/-- Records do not come back to what they were. -/
theorem Leads.antisymm (there : r.Leads r') (back : r'.Leads r) : r = r' := by
  rcases there with same | ⟨confirmed', before⟩
  · exact same
  rcases back with same | ⟨confirmed, before'⟩
  · exact same.symm
  have older : r.state.lastUpdated < r'.state.lastUpdated :=
    before.resolve_left fun provisional => by cases confirmed.symm.trans provisional
  have newer : r'.state.lastUpdated < r.state.lastUpdated :=
    before'.resolve_left fun provisional => by cases confirmed'.symm.trans provisional
  exact absurd older (UInt64.lt_asymm newer)

/-- A record is not lost, and what it becomes it leads to. -/
def Onward (known known' : Option Record) : Prop := ∀ r, known = some r → ∃ r', known' = some r' ∧ r.Leads r'

theorem Onward.refl (known : Option Record) : Onward known known := fun r found => ⟨r, found, .inl rfl⟩

theorem Onward.trans (first : Onward known known') (second : Onward known' known'') : Onward known known'' := by
  intro r found
  obtain ⟨r', found', leads⟩ := first r found
  obtain ⟨r'', found'', leads'⟩ := second r' found'
  exact ⟨r'', found'', leads.trans leads'⟩

theorem Onward.antisymm (there : Onward known known') (back : Onward known' known) : known = known' := by
  cases known with
  | none =>
    cases known' with
    | none => rfl
    | some r' => obtain ⟨_, found, _⟩ := back r' rfl; cases found
  | some r =>
    obtain ⟨r', rfl, leads⟩ := there r rfl
    obtain ⟨_, found, leads'⟩ := back r' rfl
    cases found
    rw [leads.antisymm leads']

end Record

namespace Peer

variable {p : Peer} {s : NodeState}

theorem update_worker : (p.update s).2.worker = p.worker := by
  simp only [update]
  split <;> rfl

/-- A peer says that it changed just if its record did. -/
theorem update_silent_iff : (p.update s).1 = false ↔ (p.update s).2.record = p.record := by
  obtain ⟨state, provisional | confirmed, worker⟩ := p
  · simp [update, record]
  · by_cases stale : s.lastUpdated ≤ state.lastUpdated
    · simp [update, stale]
    · simp [update, stale, record, eq_comm (a := s)]

theorem update_of_silent (silent : (p.update s).1 = false) : (p.update s).2 = p := by
  have worker : (p.update s).2.worker = p.worker := update_worker
  have record := update_silent_iff.mp silent
  cases same : (p.update s).2
  cases p
  rw [same] at worker record
  cases worker
  cases record
  rfl

end Peer

namespace View

variable (v : View)

/-! ## Single states -/

theorem mergeState_silent_iff {s : NodeState} :
    (v.mergeState s).1 = false ↔ (v.mergeState s).2.record? s.address = v.record? s.address := by
  by_cases ours : s.address = v.own.address
  · simp [mergeState, ours]
  rw [(v.mergeState_revises s ours).record?, if_pos rfl]
  simp only [mergeState, if_neg ours]
  cases known : v.peers.get? s.address with
  | none => simp [record?, known]
  | some p => simp [record?, known, Peer.update_silent_iff, update_record]

theorem mergeState_of_silent {s : NodeState} (silent : (v.mergeState s).1 = false) : (v.mergeState s).2 = v := by
  by_cases ours : s.address = v.own.address
  · exact v.mergeState_ours ours
  simp only [mergeState, if_neg ours] at silent ⊢
  cases known : v.peers.get? s.address with
  | none => simp [known] at silent
  | some p =>
    simp only [known] at silent
    simp only [Peer.update_of_silent silent, Registry.modify_same known]

/-- A report that is settled on has nothing more to say. -/
theorem mergeState_silent_of_settled {s : NodeState}
    (settled : s.address = v.own.address ∨ Settled (v.record? s.address) s.lastUpdated) :
    (v.mergeState s).1 = false := by
  by_cases ours : s.address = v.own.address
  · simp [mergeState, ours]
  obtain ⟨known, found, late⟩ := settled.resolve_left ours
  rw [mergeState_silent_iff, (v.mergeState_revises s ours).record?, if_pos rfl, found]
  simp only [Record.take, NodeState.renew, if_pos late]

theorem mergeState_onward (s : NodeState) (a : NodeAddress) :
    Record.Onward (v.record? a) ((v.mergeState s).2.record? a) := by
  by_cases ours : s.address = v.own.address
  · rw [v.mergeState_ours ours]
    exact .refl _
  · rw [(v.mergeState_revises s ours).record?]
    split
    · rename_i here
      intro r found
      rw [← here, found]
      exact ⟨_, rfl, r.leads_take s⟩
    · exact .refl _

/-! ## Messages -/

theorem mergeStates_cons (s : NodeState) (states : List NodeState) :
    v.mergeStates (s :: states) = (v.mergeState s).2.mergeStates states := rfl

def changes (v : View) : List NodeState → Nat
  | [] => 0
  | s :: states => (if (v.mergeState s).1 then 1 else 0) + (v.mergeState s).2.changes states

theorem merge_eq (now : UInt64) (m : StatusMessage) : v.merge now m =
    (v.changes m.states,
      if v.changes m.states = 0 then v.mergeStates m.states
      else { v.mergeStates m.states with lastUpdated := max (v.mergeStates m.states).lastUpdated now }) := by
  have merged (count : Nat) (v : View) (states : List NodeState) :
      states.foldl (fun (before : Nat × View) s =>
        (if (before.2.mergeState s).1 then before.1 + 1 else before.1, (before.2.mergeState s).2)) (count, v) =
      (count + v.changes states, v.mergeStates states) := by
    induction states generalizing count v with
    | nil => rfl
    | cons s states ih =>
      rw [List.foldl_cons, ih, changes, mergeStates_cons]
      cases (v.mergeState s).1 <;> simp [Nat.add_assoc]
  simp only [merge]
  rw [merged, Nat.zero_add]

theorem mergeStates_of_no_changes {states : List NodeState} (none : v.changes states = 0) :
    v.mergeStates states = v := by
  induction states generalizing v with
  | nil => rfl
  | cons s states ih =>
    simp only [changes, Nat.add_eq_zero_iff, ite_eq_right_iff, Nat.one_ne_zero, imp_false, Bool.not_eq_true] at none
    rw [v.mergeState_of_silent none.1] at none
    rw [mergeStates_cons, v.mergeState_of_silent none.1]
    exact ih v none.2

theorem mergeStates_onward (states : List NodeState) (a : NodeAddress) :
    Record.Onward (v.record? a) ((v.mergeStates states).record? a) :=
  @foldl_keeps _ _ (fun v v' => ∀ a, Record.Onward (v.record? a) (v'.record? a)) (fun _ _ => .refl _)
    (fun first second a => (first a).trans (second a)) mergeState_onward v states a

/-- Records move on from one state to the next, so a change that is made is there in the end. -/
theorem no_changes_iff {states : List NodeState} :
    v.changes states = 0 ↔ ∀ a, (v.mergeStates states).record? a = v.record? a := by
  refine ⟨fun none a => by rw [v.mergeStates_of_no_changes none], fun same => ?_⟩
  induction states generalizing v with
  | nil => rfl
  | cons s states ih =>
    have silent : (v.mergeState s).1 = false := by
      rw [mergeState_silent_iff]
      have later := (v.mergeState s).2.mergeStates_onward states s.address
      rw [← mergeStates_cons, same] at later
      exact later.antisymm (v.mergeState_onward s s.address)
    rw [mergeStates_cons, v.mergeState_of_silent silent] at same
    rw [changes, v.mergeState_of_silent silent, silent, ih v same]
    rfl

theorem no_changes_of_silent {states : List NodeState} (silent : ∀ s ∈ states, (v.mergeState s).1 = false) :
    v.changes states = 0 := by
  induction states with
  | nil => rfl
  | cons s states ih =>
    have first := silent s List.mem_cons_self
    rw [changes, first, v.mergeState_of_silent first, ih fun s member => silent s (List.mem_cons_of_mem _ member)]
    rfl

/-- Merging settles all that a message says, whatever it repeats. -/
theorem no_changes_again (now : UInt64) (m : StatusMessage) : (v.merge now m).2.changes m.states = 0 := by
  refine no_changes_of_silent _ fun s member => mergeState_silent_of_settled _ ?_
  by_cases ours : s.address = v.own.address
  · exact .inl (ours.trans (congrArg NodeState.address (v.apply_frame (.merge now m)).own.symm))
  · have revised := v.apply_record? (.merge now m) ours
    rw [apply] at revised
    rw [revised]
    exact .inr (revise_settles (List.mem_filter.mpr ⟨member, by simp⟩))

/-! ## The time of the last update -/

theorem startSync_lastUpdated (a : NodeAddress) : (v.startSync a).lastUpdated = v.lastUpdated := by
  unfold startSync
  split
  · rfl
  · split <;> rfl

theorem stopSync_lastUpdated (a : NodeAddress) : (v.stopSync a).lastUpdated = v.lastUpdated := by
  unfold stopSync
  split <;> rfl

theorem addPeer_lastUpdated (a : NodeAddress) (s : NodeState) (status : PeerStatus) :
    (v.addPeer a s status).lastUpdated = v.lastUpdated := by
  simp only [addPeer]
  split
  · exact startSync_lastUpdated _ a
  · rfl

theorem contact_lastUpdated (now : UInt64) (a : NodeAddress) (range : KeyRange) :
    (v.contact now a range).2.lastUpdated = v.lastUpdated := by
  simp only [contact]
  split
  · rfl
  · split
    · rfl
    · exact v.addPeer_lastUpdated ..

theorem mergeState_lastUpdated (s : NodeState) : (v.mergeState s).2.lastUpdated = v.lastUpdated := by
  simp only [mergeState]
  split
  · rfl
  · split
    · exact v.addPeer_lastUpdated ..
    · rfl

theorem foldl_lastUpdated {α : Type} {step : View → α → View} (each : ∀ v x, (step v x).lastUpdated = v.lastUpdated)
    (xs : List α) : (xs.foldl step v).lastUpdated = v.lastUpdated :=
  @foldl_keeps _ _ (fun v v' => v'.lastUpdated = v.lastUpdated) (fun _ => rfl)
    (fun first second => second.trans first) each v xs

theorem max_of_lt {time now : UInt64} (late : time < now) : max time now = now := if_pos (UInt64.le_of_lt late)

theorem le_max (time now : UInt64) : time ≤ max time now := by
  change time ≤ if time ≤ now then now else time
  split
  · assumption
  · exact UInt64.le_refl time

theorem merge_lastUpdated (now : UInt64) (m : StatusMessage) : (v.merge now m).2.lastUpdated =
    if v.changes m.states = 0 then v.lastUpdated else max v.lastUpdated now := by
  have merged : (v.mergeStates m.states).lastUpdated = v.lastUpdated := v.foldl_lastUpdated mergeState_lastUpdated _
  rw [merge_eq]
  split
  · exact merged
  · rw [← merged]

theorem le_apply_lastUpdated (event : Event) : v.lastUpdated ≤ (v.apply event).lastUpdated := by
  cases event with
  | contact now a range => exact UInt64.le_of_eq (v.contact_lastUpdated now a range).symm
  | merge now m =>
    rw [apply, merge_lastUpdated]
    split
    · exact UInt64.le_refl _
    · exact le_max ..
  | start => exact UInt64.le_of_eq (foldl_lastUpdated { v with running := true } startSync_lastUpdated _).symm
  | stop => exact UInt64.le_of_eq (foldl_lastUpdated { v with running := false } stopSync_lastUpdated _).symm
  | finish worker => exact UInt64.le_refl _

theorem le_replay_lastUpdated (events : List Event) : v.lastUpdated ≤ (v.replay events).lastUpdated :=
  @foldl_keeps _ _ (fun v v' => v.lastUpdated ≤ v'.lastUpdated) (fun _ => UInt64.le_refl _) UInt64.le_trans
    le_apply_lastUpdated v events

/-! ## Merges and contacts -/

theorem contact_changes_iff (now : UInt64) (a : NodeAddress) (range : KeyRange) :
    (∃ b, (v.contact now a range).2.state? b ≠ v.state? b) ↔ a ≠ v.own.address ∧ v.state? a = none := by
  constructor
  · rintro ⟨b, changed⟩
    by_cases ours : a = v.own.address
    · simp [contact, ours] at changed
    refine ⟨ours, ?_⟩
    cases known : v.peers.get? a with
    | none => simp [state?, known]
    | some p => simp [contact, ours, known] at changed
  · rintro ⟨apart, unknown⟩
    have none_known : v.record? a = none := by simpa [state?_eq] using unknown
    refine ⟨a, ?_⟩
    rw [state?_eq, (v.contact_revises now range apart).record?, if_pos rfl, none_known, unknown]
    simp

theorem mergeState_untold {s : NodeState} {a : NodeAddress} (other : s.address ≠ a) :
    (v.mergeState s).2.record? a = v.record? a := by
  by_cases ours : s.address = v.own.address
  · rw [v.mergeState_ours ours]
  · rw [(v.mergeState_revises s ours).record?, if_neg other.symm]

theorem mergeStates_untold {states : List NodeState} {a : NodeAddress} (untold : ∀ s ∈ states, s.address ≠ a) :
    (v.mergeStates states).record? a = v.record? a := by
  induction states generalizing v with
  | nil => rfl
  | cons s states ih =>
    rw [mergeStates_cons, ih _ fun s' member => untold s' (List.mem_cons_of_mem _ member)]
    exact v.mergeState_untold (untold s List.mem_cons_self)

/-- Where no node is named twice, one change is counted for each record that changes. -/
theorem changes_eq_countP {states : List NodeState} (once : (states.map NodeState.address).Nodup) :
    v.changes states = states.countP fun s => (v.mergeStates states).record? s.address ≠ v.record? s.address := by
  induction states generalizing v with
  | nil => rfl
  | cons s states ih =>
    obtain ⟨new, once⟩ := List.nodup_cons.mp once
    have others : ∀ s' ∈ states, s'.address ≠ s.address := fun s' member same =>
      new (same ▸ List.mem_map_of_mem member)
    have first : ((v.mergeState s).2.mergeStates states).record? s.address = (v.mergeState s).2.record? s.address :=
      mergeStates_untold _ others
    have rest : ∀ s' ∈ states, (v.mergeState s).2.record? s'.address = v.record? s'.address := fun s' member =>
      v.mergeState_untold (others s' member).symm
    rw [changes, ih _ once, mergeStates_cons, List.countP_cons, Nat.add_comm]
    congr 1
    · exact List.countP_congr fun s' member => by rw [rest s' member]
    · simp only [first, ne_eq, ← mergeState_silent_iff, Bool.not_eq_false]
      simp

/-- A merge counts none just if it leaves every record, and then it leaves the whole view and its time; otherwise the
time moves on to the clock's, if that is later. Where a message names no node twice, each record that changes counts
once. The same message again changes nothing. So whatever the clock shows, the time of the last update never goes
back. -/
theorem merge_counts_changes (now : UInt64) (m : StatusMessage) :
    let count := (v.merge now m).1
    let after := (v.merge now m).2
    (count = 0 ↔ ∀ a, after.record? a = v.record? a) ∧
    (count = 0 → after = v ∧ after.lastUpdated = v.lastUpdated) ∧
    (count ≠ 0 → after.lastUpdated = max v.lastUpdated now) ∧
    ((m.states.map NodeState.address).Nodup →
      count = m.states.countP fun s => after.record? s.address ≠ v.record? s.address) ∧
    (∀ now', after.merge now' m = (0, after)) ∧
    ∀ events, v.lastUpdated ≤ (v.replay events).lastUpdated := by
  intro count after
  have counted : count = v.changes m.states := by rw [show count = _ from congrArg Prod.fst (v.merge_eq now m)]
  have records : ∀ a, after.record? a = (v.mergeStates m.states).record? a := (v.merge_keeps now m).record?
  have unchanged : count = 0 → after = v := by
    intro none
    have silent := counted ▸ none
    rw [show after = _ from congrArg Prod.snd (v.merge_eq now m), if_pos silent, v.mergeStates_of_no_changes silent]
  refine ⟨?_, fun none => ⟨unchanged none, by rw [unchanged none]⟩, fun some => ?_, fun once => ?_, fun now' => ?_,
    v.le_replay_lastUpdated⟩
  · simp only [counted, no_changes_iff, records]
  · have moved := v.merge_lastUpdated now m
    rwa [if_neg (counted ▸ some)] at moved
  · simp only [counted, records, v.changes_eq_countP once]
  · have silent := v.no_changes_again now m
    rw [merge_eq, silent, if_pos rfl, mergeStates_of_no_changes _ silent]

/-- Two reports on a node that made contact before, with an older one and one on the own node between them. -/
theorem repeated_reports_counted :
    let v := (make .circle (.serving "a" 1) [] 5 true).replay [.contact 9 ⟨"b", 1⟩ KeySpace.circle.emptyRange]
    let m : StatusMessage := ⟨20, 20, .serving "b" 3, [.serving "a" 9, .serving "b" 2, .serving "b" 4]⟩
    (v.merge 7 m).1 = 2 ∧ (v.merge 7 m).2.lastUpdated = 7 ∧ (v.merge 7 m).2.merge 6 m = (0, (v.merge 7 m).2) := by
  intro v m
  obtain ⟨_, _, moved, _, again, _⟩ := merge_counts_changes v 7 m
  have counted : (v.merge 7 m).1 = 2 := by decide
  exact ⟨counted, (moved (by rw [counted]; decide)).trans (by decide), again 6⟩

/-- A merge that changes any peer notes its time, and messages tell it. A contact notes none, and it changes something
just if it adds a peer. -/
theorem changes_noted (now : UInt64) (late : v.lastUpdated < now) :
    (∀ m, (∃ a, (v.merge now m).2.state? a ≠ v.state? a) →
      (v.merge now m).2.lastUpdated = now ∧ ∀ sent, ((v.merge now m).2.message sent).clusterUpdated = now) ∧
    ∀ a range,
      (v.contact now a range).2.lastUpdated = v.lastUpdated ∧
      (∀ sent, ((v.contact now a range).2.message sent).clusterUpdated = v.lastUpdated) ∧
      ((∃ b, (v.contact now a range).2.state? b ≠ v.state? b) ↔ a ≠ v.own.address ∧ v.state? a = none) := by
  refine ⟨fun m ⟨a, changed⟩ => ?_, fun a range => ?_⟩
  · have some : v.changes m.states ≠ 0 := by
      intro none
      rw [state?_eq, state?_eq, (v.merge_keeps now m).record?, v.mergeStates_of_no_changes none] at changed
      exact changed rfl
    have noted : (v.merge now m).2.lastUpdated = now := by rw [merge_lastUpdated, if_neg some, max_of_lt late]
    exact ⟨noted, fun _ => noted⟩
  · have kept := v.contact_lastUpdated now a range
    exact ⟨kept, fun _ => kept, v.contact_changes_iff now a range⟩

/-- The first contact with a node, and a message that names another one. -/
theorem new_peers_noted :
    let v := make .circle (.serving "a" 1) [] 500 true
    let m : StatusMessage := ⟨1000, 1000, .serving "b" 3, []⟩
    v.lastUpdated < 1000 ∧ (v.merge 1000 m).2.lastUpdated = 1000 ∧
    (v.contact 1000 ⟨"c", 1⟩ KeySpace.circle.emptyRange).2.lastUpdated = 500 := by
  intro v m
  have late : v.lastUpdated < 1000 := by decide
  obtain ⟨merges, contacts⟩ := changes_noted v 1000 late
  exact ⟨late, (merges m ⟨⟨"b", 1⟩, by decide⟩).1, (contacts ⟨"c", 1⟩ KeySpace.circle.emptyRange).1⟩

/-- A contact adds a peer, and the time of the last update stays. -/
theorem contact_unnoted :
    let v := make .circle (.serving "a" 1) [] 500 true
    let after := v.apply (.contact 1000 ⟨"c", 1⟩ KeySpace.circle.emptyRange)
    v.lastUpdated < 1000 ∧ after.state? ⟨"c", 1⟩ ≠ v.state? ⟨"c", 1⟩ ∧ after.lastUpdated ≠ 1000 ∧
      (after.message 1000).clusterUpdated ≠ 1000 := by
  decide

end View
end ReplicaRing
