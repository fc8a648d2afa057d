import ReplicaRing.Membership.View
import ReplicaRing.Proofs.Node.Newest
import ReplicaRing.Proofs.Node.Registry

/-! Views as what happens to them. A view keeps one record on each peer, and an event revises the records
one by one: workers come and go without touching any, a contact adds a placeholder where there is none,
and a report replaces a placeholder or an older report. -/
namespace ReplicaRing

structure Record where
  state : NodeState
  status : PeerStatus
deriving DecidableEq

def Peer.record (p : Peer) : Record := ⟨p.state, p.status⟩

/-- What is made up for a node from the range it makes contact with. -/
def NodeState.placeholder (a : NodeAddress) (range : KeyRange) (now : UInt64) : NodeState :=
  ⟨a, none, range, range, false, now⟩

def Record.take (known : Option Record) (s : NodeState) : Record :=
  match known with
  | some ⟨old, .confirmed⟩ => ⟨old.renew s, .confirmed⟩
  | _ => ⟨s, .confirmed⟩

namespace View

/-- What happens to a view. The clock is read at contacts and merges; `finish` is a worker's own end. -/
inductive Event where
  | contact (now : UInt64) (address : NodeAddress) (range : KeyRange)
  | merge (now : UInt64) (message : StatusMessage)
  | start
  | stop
  | finish (worker : Nat)

def apply (v : View) : Event → View
  | .contact now a range => (v.contact now a range).2
  | .merge now m => (v.merge now m).2
  | .start => v.start
  | .stop => v.stop
  | .finish worker => v.finish worker

def replay (v : View) (events : List Event) : View := events.foldl apply v

def record? (v : View) (a : NodeAddress) : Option Record := (v.peers.get? a).map Peer.record

theorem state?_eq (v : View) (a : NodeAddress) : v.state? a = (v.record? a).map Record.state := by
  simp [state?, record?, Peer.record, Function.comp_def]

theorem mem_peerStates {v : View} {s : NodeState} :
    s ∈ v.peerStates ↔ ∃ a status, v.record? a = some ⟨s, status⟩ := by
  simp only [peerStates, List.mem_map, record?, Option.map_eq_some_iff]
  constructor
  · rintro ⟨⟨a, p⟩, member, rfl⟩
    exact ⟨a, p.status, p, v.peers.get?_eq_some_iff.mpr member, rfl⟩
  · rintro ⟨a, status, p, known, same⟩
    exact ⟨(a, p), v.peers.get?_eq_some_iff.mp known, congrArg Record.state same⟩

theorem foldl_keeps {α : Type} {step : View → α → View} {keeps : View → View → Prop} (refl : ∀ v, keeps v v)
    (trans : ∀ {v v' v''}, keeps v v' → keeps v' v'' → keeps v v'') (each : ∀ v x, keeps v (step v x))
    (v : View) (xs : List α) : keeps v (xs.foldl step v) := by
  induction xs generalizing v with
  | nil => exact refl v
  | cons x xs ih => exact trans (each v x) (ih (step v x))

/-! ## Frames -/

/-- What a view is of itself stays, and no record on itself is added. -/
structure Frame (v v' : View) : Prop where
  own : v'.own = v.own
  space : v'.space = v.space
  ours : v'.record? v.own.address = v.record? v.own.address

structure Keeps (v v' : View) : Prop where
  own : v'.own = v.own
  space : v'.space = v.space
  record? : ∀ a, v'.record? a = v.record? a

/-- At most the record on one other node changes. -/
structure Revises (v : View) (a : NodeAddress) (record : Option Record) (v' : View) : Prop where
  own : v'.own = v.own
  space : v'.space = v.space
  record? : ∀ b, v'.record? b = if b = a then record else v.record? b

section Frames

variable {v v' v'' : View} {a : NodeAddress} {record : Option Record}

theorem Frame.refl (v : View) : v.Frame v := ⟨rfl, rfl, rfl⟩

theorem Frame.trans (first : v.Frame v') (second : v'.Frame v'') : v.Frame v'' :=
  ⟨second.own.trans first.own, second.space.trans first.space, by
    rw [← first.ours, ← first.own, second.ours]⟩

theorem Keeps.refl (v : View) : v.Keeps v := ⟨rfl, rfl, fun _ => rfl⟩

theorem Keeps.trans (first : v.Keeps v') (second : v'.Keeps v'') : v.Keeps v'' :=
  ⟨second.own.trans first.own, second.space.trans first.space,
    fun a => (second.record? a).trans (first.record? a)⟩

theorem Keeps.frame (keeps : v.Keeps v') : v.Frame v' := ⟨keeps.own, keeps.space, keeps.record? _⟩

theorem Revises.frame (revises : v.Revises a record v') (apart : a ≠ v.own.address) : v.Frame v' :=
  ⟨revises.own, revises.space, by rw [revises.record?, if_neg apart.symm]⟩

theorem Revises.keeps (revises : v.Revises a record v') (keeps : v'.Keeps v'') : v.Revises a record v'' :=
  ⟨keeps.own.trans revises.own, keeps.space.trans revises.space,
    fun b => (keeps.record? b).trans (revises.record? b)⟩

end Frames

/-! ## Workers -/

section Workers

variable (v : View)

theorem modify_worker_keeps (workers : List Worker) (a : NodeAddress) (worker : Option Nat) :
    v.Keeps { v with workers, peers := v.peers.modify a fun p => { p with worker } } := by
  refine ⟨rfl, rfl, fun b => ?_⟩
  simp only [View.record?, Registry.get?_modify]
  split
  · cases v.peers.get? b <;> rfl
  · rfl

theorem startSync_keeps (a : NodeAddress) : v.Keeps (v.startSync a) := by
  unfold startSync
  split
  · exact .refl v
  · split
    · exact .refl v
    · exact v.modify_worker_keeps ..

theorem stopSync_keeps (a : NodeAddress) : v.Keeps (v.stopSync a) := by
  unfold stopSync
  split
  · exact .refl v
  · exact v.modify_worker_keeps ..

theorem start_keeps : v.Keeps v.start := by
  have running : v.Keeps { v with running := true } := ⟨rfl, rfl, fun _ => rfl⟩
  exact running.trans (foldl_keeps Keeps.refl Keeps.trans startSync_keeps _ _)

theorem stop_keeps : v.Keeps v.stop := by
  have stopped : v.Keeps { v with running := false } := ⟨rfl, rfl, fun _ => rfl⟩
  exact stopped.trans (foldl_keeps Keeps.refl Keeps.trans stopSync_keeps _ _)

theorem finish_keeps (worker : Nat) : v.Keeps (v.finish worker) := ⟨rfl, rfl, fun _ => rfl⟩

end Workers

/-! ## Records -/

section Records

variable (v : View) {a : NodeAddress} {s : NodeState} {status : PeerStatus}

theorem addPeer_revises : v.Revises a (some ⟨s, status⟩) (v.addPeer a s status) := by
  have inserted : v.Revises a (some ⟨s, status⟩) { v with peers := v.peers.insert a ⟨s, status, none⟩ } := by
    refine ⟨rfl, rfl, fun b => ?_⟩
    simp only [View.record?, Registry.get?_insert]
    split <;> rfl
  simp only [addPeer]
  split
  · exact inserted.keeps (startSync_keeps _ a)
  · exact inserted

/-- A contact makes up a record on an unknown node, and leaves a known one as it is. -/
theorem contact_revises (now : UInt64) (range : KeyRange) (apart : a ≠ v.own.address) :
    v.Revises a ((v.record? a).or (some ⟨.placeholder a range now, .provisional⟩)) (v.contact now a range).2 := by
  simp only [contact, if_neg apart]
  cases known : v.peers.get? a with
  | none =>
    have unknown : v.record? a = none := by rw [record?, known, Option.map_none]
    rw [unknown]
    exact v.addPeer_revises
  | some p =>
    refine ⟨rfl, rfl, fun b => ?_⟩
    by_cases here : b = a
    · simp [here, View.record?, known]
    · simp [here]

theorem update_record (p : Peer) (s : NodeState) : (p.update s).2.record = .take (some p.record) s := by
  cases status : p.status with
  | provisional => simp [Peer.update, Peer.record, Record.take, status]
  | confirmed =>
    by_cases stale : s.lastUpdated ≤ p.state.lastUpdated <;>
      simp [Peer.update, Peer.record, Record.take, NodeState.renew, status, stale]

theorem mergeState_revises (s : NodeState) (apart : s.address ≠ v.own.address) :
    v.Revises s.address (some (.take (v.record? s.address) s)) (v.mergeState s).2 := by
  simp only [mergeState, if_neg apart]
  cases known : v.peers.get? s.address with
  | none =>
    have unknown : v.record? s.address = none := by rw [record?, known, Option.map_none]
    rw [unknown]
    exact v.addPeer_revises
  | some p =>
    refine ⟨rfl, rfl, fun b => ?_⟩
    by_cases here : b = s.address
    · simp [here, View.record?, Registry.get?_modify, known, update_record]
    · simp [here, View.record?, Registry.get?_modify]

/-- The own state is no report. -/
theorem mergeState_ours (ours : s.address = v.own.address) : (v.mergeState s).2 = v := by
  simp [mergeState, ours]

theorem mergeState_frame (s : NodeState) : v.Frame (v.mergeState s).2 := by
  by_cases ours : s.address = v.own.address
  · rw [v.mergeState_ours ours]
    exact .refl v
  · exact (v.mergeState_revises s ours).frame ours

theorem contact_frame (now : UInt64) (a : NodeAddress) (range : KeyRange) :
    v.Frame (v.contact now a range).2 := by
  by_cases ours : a = v.own.address
  · simp only [contact, if_pos ours]
    exact .refl v
  · exact (v.contact_revises now range ours).frame ours

end Records

/-! ## Events -/

def reportsOn (a : NodeAddress) (states : List NodeState) : List NodeState := states.filter (·.address = a)

def Event.revise (a : NodeAddress) : Event → Option Record → Option Record
  | .contact now b range, known => if b = a then known.or (some ⟨.placeholder a range now, .provisional⟩) else known
  | .merge _ m, known => (reportsOn a m.states).foldl (fun known s => some (.take known s)) known
  | _, known => known

def mergeStates (v : View) (states : List NodeState) : View := states.foldl (fun v s => (v.mergeState s).2) v

section Events

variable (v : View) {a : NodeAddress}

theorem merge_keeps (now : UInt64) (m : StatusMessage) : (v.mergeStates m.states).Keeps (v.merge now m).2 := by
  let step (before : Nat × View) (s : NodeState) : Nat × View :=
    (if (before.2.mergeState s).1 then before.1 + 1 else before.1, (before.2.mergeState s).2)
  have merged : (m.states.foldl step (0, v)).2 = v.mergeStates m.states :=
    (List.foldl_hom Prod.snd fun _ _ => rfl).symm
  rw [← merged]
  simp only [merge]
  split
  · exact .refl _
  · exact ⟨rfl, rfl, fun _ => rfl⟩

theorem mergeStates_record? (states : List NodeState) (apart : a ≠ v.own.address) :
    (v.mergeStates states).record? a =
      (reportsOn a states).foldl (fun known s => some (.take known s)) (v.record? a) := by
  induction states generalizing v with
  | nil => rfl
  | cons s states ih =>
    have later := ih (v.mergeState s).2 (by rwa [(v.mergeState_frame s).own])
    rw [mergeStates, List.foldl_cons, ← mergeStates, later]
    by_cases ours : s.address = v.own.address
    · have other : s.address ≠ a := fun here => apart (here.symm.trans ours)
      simp [reportsOn, other, v.mergeState_ours ours]
    · have revised := (v.mergeState_revises s ours).record? a
      by_cases here : s.address = a
      · subst here
        simp [reportsOn, revised]
      · simp [reportsOn, here, revised, Ne.symm here]

theorem apply_frame (event : Event) : v.Frame (v.apply event) := by
  cases event with
  | contact now b range => exact v.contact_frame now b range
  | merge now m =>
    have merged : v.Frame (v.mergeStates m.states) := foldl_keeps Frame.refl Frame.trans mergeState_frame v _
    exact merged.trans (v.merge_keeps now m).frame
  | start => exact v.start_keeps.frame
  | stop => exact v.stop_keeps.frame
  | finish worker => exact (v.finish_keeps worker).frame

/-- An event revises the record on each node. -/
theorem apply_record? (event : Event) (apart : a ≠ v.own.address) :
    (v.apply event).record? a = event.revise a (v.record? a) := by
  cases event with
  | contact now b range =>
    by_cases ours : b = v.own.address
    · simp [apply, contact, ours, Event.revise, Ne.symm apart]
    · rw [apply, (v.contact_revises now range ours).record?]
      by_cases here : b = a
      · simp [here, Event.revise]
      · simp [here, Ne.symm here, Event.revise]
  | merge now m => exact ((v.merge_keeps now m).record? a).trans (v.mergeStates_record? m.states apart)
  | start => exact v.start_keeps.record? a
  | stop => exact v.stop_keeps.record? a
  | finish worker => exact (v.finish_keeps worker).record? a

theorem replay_frame (events : List Event) : v.Frame (v.replay events) :=
  foldl_keeps Frame.refl Frame.trans apply_frame v events

theorem replay_record? (events : List Event) (apart : a ≠ v.own.address) :
    (v.replay events).record? a = events.foldl (fun known event => event.revise a known) (v.record? a) := by
  induction events generalizing v with
  | nil => rfl
  | cons event events ih =>
    have later := ih (v.apply event) (by rwa [(v.apply_frame event).own])
    rw [replay, List.foldl_cons, ← replay, later, v.apply_record? event apart, List.foldl_cons]

end Events

end View
end ReplicaRing
