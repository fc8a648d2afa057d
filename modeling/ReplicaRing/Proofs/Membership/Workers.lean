import ReplicaRing.Proofs.Membership.Changes

/-! Workers come and go with the view's running. A worker may end on its own at any time, also while peers are taken
one by one; so what holds of workers is shown for each single start, stop and end, and from that for whole runs.
While a view runs every peer has had a worker started since it did not; while it does not run none is at work; and no
peer ever has two at work. -/
namespace ReplicaRing

namespace Worker

theorem cancel_not_active (w : Worker) : w.cancel.state ≠ .active := by
  unfold cancel
  split
  · nofun
  · assumption

theorem finish_not_active (w : Worker) : w.finish.state ≠ .active := by
  unfold finish
  split
  · nofun
  · assumption

theorem cancel_peer (w : Worker) : w.cancel.peer = w.peer := by
  unfold cancel
  split <;> rfl

theorem finish_peer (w : Worker) : w.finish.peer = w.peer := by
  unfold finish
  split <;> rfl

end Worker

namespace View

def worker? (v : View) (a : NodeAddress) : Option Nat := (v.peers.get? a).bind (·.worker)

def started (v : View) : List NodeAddress := v.workers.map (·.peer)

def StartedSince (v : View) (base : List NodeAddress) (a : NodeAddress) : Prop :=
  ∃ fresh, v.started = base ++ fresh ∧ a ∈ fresh

def Idle (v : View) (a : NodeAddress) : Prop :=
  ∀ i w, v.worker? a = some i → v.workers[i]? = some w → w.state ≠ .active

def Held (v : View) : Prop := ∀ i w, v.workers[i]? = some w → w.state = .active → v.worker? w.peer = some i

def launch (v : View) (a : NodeAddress) : View :=
  { v with
    workers := v.workers ++ [⟨a, .active⟩]
    peers := v.peers.modify a fun p => { p with worker := some v.workers.length } }

def release (v : View) (a : NodeAddress) (i : Nat) : View :=
  { v with
    workers := v.workers.modify i Worker.cancel
    peers := v.peers.modify a fun p => { p with worker := none } }

def enroll (v : View) (a : NodeAddress) (s : NodeState) (status : PeerStatus) : View :=
  { v with peers := v.peers.insert a ⟨s, status, none⟩ }

section Single

variable (v : View) {a b : NodeAddress}

theorem worker?_modify (workers : List Worker) (worker : Option Nat) :
    worker? { v with workers, peers := v.peers.modify a fun p => { p with worker } } b =
      if b = a then (v.peers.get? a).bind fun _ => worker else v.worker? b := by
  simp only [worker?, Registry.get?_modify]
  split
  · rename_i here
    subst here
    cases v.peers.get? b <;> rfl
  · rfl

theorem isSyncing_eq_false_iff {p : Peer} (known : v.peers.get? a = some p) : v.isSyncing p = false ↔ v.Idle a := by
  simp only [isSyncing, Idle, worker?, known, Option.bind_some, Option.any_eq_false, Option.bind_eq_some_iff,
    decide_eq_false_iff_not]
  constructor
  · exact fun idle i w given there => idle w ⟨i, given, there⟩
  · exact fun idle w ⟨i, given, there⟩ => idle i w given there

theorem startSync_cases (a : NodeAddress) :
    v.startSync a = v.launch a ∧ a ∈ v.peers.addresses ∧ v.Idle a ∨
    v.startSync a = v ∧ (a ∈ v.peers.addresses → v.hasRuntime = true → ¬ v.Idle a) := by
  simp only [startSync, ← Registry.get?_isSome_iff]
  cases known : v.peers.get? a with
  | none => simp
  | some p =>
    simp only [← v.isSyncing_eq_false_iff known]
    cases syncing : v.isSyncing p <;> cases runtime : v.hasRuntime <;> simp [launch, runtime]

theorem stopSync_cases (a : NodeAddress) :
    (∃ i, v.worker? a = some i ∧ v.stopSync a = v.release a i) ∨ v.worker? a = none ∧ v.stopSync a = v := by
  simp only [stopSync, worker?]
  cases given : (v.peers.get? a).bind (·.worker) with
  | none => exact .inr ⟨rfl, rfl⟩
  | some i => exact .inl ⟨i, rfl, rfl⟩

theorem started_launch : (v.launch a).started = v.started ++ [a] := List.map_append

theorem launch_held (held : v.Held) (known : a ∈ v.peers.addresses) (idle : v.Idle a) : (v.launch a).Held := by
  intro i w there active
  rw [launch, worker?_modify]
  rw [launch, List.getElem?_append] at there
  split at there
  · -- a worker from before: it is not of this peer, which has none at work
    have given := held i w there active
    have other : w.peer ≠ a := fun here => idle i w (here ▸ given) there active
    rw [if_neg other, given]
  · obtain ⟨last, rfl⟩ := List.getElem?_eq_some_iff.mp there
    have number : i = v.workers.length := by simp at last; omega
    obtain ⟨p, found⟩ := Option.isSome_iff_exists.mp (v.peers.get?_isSome_iff.mpr known)
    simp [found, number]

/-- What is done to one worker, so that it is not at work after that. -/
theorem getElem?_modify_active {i j : Nat} {w : Worker} {f : Worker → Worker} (ends : ∀ w, (f w).state ≠ .active)
    (there : (v.workers.modify i f)[j]? = some w) (active : w.state = .active) : j ≠ i ∧ v.workers[j]? = some w := by
  rw [List.getElem?_modify] at there
  split at there
  · obtain ⟨old, _, rfl⟩ := Option.map_eq_some_iff.mp there
    exact absurd active (ends old)
  · rename_i other
    exact ⟨Ne.symm other, by simpa using there⟩

theorem release_held {i : Nat} (held : v.Held) (given : v.worker? a = some i) : (v.release a i).Held := by
  intro j w there active
  obtain ⟨other, before⟩ := v.getElem?_modify_active Worker.cancel_not_active there active
  have kept := held j w before active
  have apart : w.peer ≠ a := by
    rintro rfl
    exact other (Option.some.inj (kept.symm.trans given))
  rw [release, worker?_modify, if_neg apart, kept]

theorem finish_held {i : Nat} (held : v.Held) : (v.finish i).Held := fun j w there active =>
  held j w (v.getElem?_modify_active Worker.finish_not_active there active).2 active

/-- What is done to one worker, so that it stays its peer's. -/
theorem started_modify (i : Nat) {f : Worker → Worker} (same : ∀ w, (f w).peer = w.peer) :
    (v.workers.modify i f).map (·.peer) = v.started := by
  refine List.ext_getElem? fun j => ?_
  rw [started, List.getElem?_map, List.getElem?_map, List.getElem?_modify]
  split
  · cases v.workers[j]? <;> simp [same]
  · cases v.workers[j]? <;> rfl

end Single

/-! ## Starts, stops and ends -/

structure Serves (v v' : View) : Prop where
  running : v'.running = v.running
  runtime : v'.hasRuntime = v.hasRuntime
  addresses : v'.peers.addresses = v.peers.addresses
  started : v.started <+: v'.started

/-- There is a runtime, workers at work are their peers', and these were started first. -/
structure Attended (v : View) (base : List NodeAddress) : Prop where
  runtime : v.hasRuntime = true
  held : v.Held
  grown : base <+: v.started

section Serving

variable {v v' v'' : View} {base : List NodeAddress} {a b : NodeAddress} {i : Nat}

theorem Serves.refl (v : View) : v.Serves v := ⟨rfl, rfl, rfl, List.prefix_rfl⟩

theorem Serves.trans (first : v.Serves v') (second : v'.Serves v'') : v.Serves v'' :=
  ⟨second.running.trans first.running, second.runtime.trans first.runtime, second.addresses.trans first.addresses,
    first.started.trans second.started⟩

theorem launch_serves (v : View) (a : NodeAddress) : v.Serves (v.launch a) :=
  ⟨rfl, rfl, Registry.addresses_modify .., v.started_launch ▸ List.prefix_append ..⟩

theorem release_serves (v : View) (a : NodeAddress) (i : Nat) : v.Serves (v.release a i) :=
  ⟨rfl, rfl, Registry.addresses_modify .., (v.started_modify i Worker.cancel_peer) ▸ List.prefix_rfl⟩

theorem finish_serves (v : View) (i : Nat) : v.Serves (v.finish i) :=
  ⟨rfl, rfl, rfl, (v.started_modify i Worker.finish_peer) ▸ List.prefix_rfl⟩

theorem startSync_serves (v : View) (a : NodeAddress) : v.Serves (v.startSync a) := by
  rcases v.startSync_cases a with ⟨launched, _⟩ | ⟨same, _⟩
  · exact launched ▸ v.launch_serves a
  · rw [same]
    exact .refl v

theorem stopSync_serves (v : View) (a : NodeAddress) : v.Serves (v.stopSync a) := by
  rcases v.stopSync_cases a with ⟨i, _, released⟩ | ⟨_, same⟩
  · exact released ▸ v.release_serves a i
  · rw [same]
    exact .refl v

theorem startSync_held (held : v.Held) (a : NodeAddress) : (v.startSync a).Held := by
  rcases v.startSync_cases a with ⟨launched, known, idle⟩ | ⟨same, _⟩
  · exact launched ▸ v.launch_held held known idle
  · rwa [same]

theorem stopSync_held (held : v.Held) (a : NodeAddress) : (v.stopSync a).Held := by
  rcases v.stopSync_cases a with ⟨i, given, released⟩ | ⟨_, same⟩
  · exact released ▸ v.release_held held given
  · rwa [same]

theorem Attended.serves (attended : v.Attended base) (serves : v.Serves v') (held : v'.Held) : v'.Attended base :=
  ⟨serves.runtime.trans attended.runtime, held, attended.grown.trans serves.started⟩

theorem StartedSince.serves (since : v.StartedSince base a) (serves : v.Serves v') : v'.StartedSince base a := by
  obtain ⟨fresh, before, member⟩ := since
  obtain ⟨more, after⟩ := serves.started
  exact ⟨fresh ++ more, by rw [← after, before, List.append_assoc], List.mem_append_left _ member⟩

theorem startSync_since (attended : v.Attended base) (known : a ∈ v.peers.addresses)
    (ready : v.StartedSince base a ∨ v.worker? a = none) : (v.startSync a).StartedSince base a := by
  rcases v.startSync_cases a with ⟨launched, _⟩ | ⟨same, working⟩
  · obtain ⟨fresh, before⟩ := attended.grown
    exact ⟨fresh ++ [a], by rw [launched, started_launch, ← before, List.append_assoc], by simp⟩
  · rw [same]
    refine ready.resolve_right fun none_given => working known attended.runtime ?_
    intro i w given
    rw [none_given] at given
    cases given

theorem startSync_ready (other : b ≠ a) (ready : v.StartedSince base b ∨ v.worker? b = none) :
    (v.startSync a).StartedSince base b ∨ (v.startSync a).worker? b = none := by
  refine ready.imp (fun since => since.serves (v.startSync_serves a)) fun none_given => ?_
  rcases v.startSync_cases a with ⟨launched, _⟩ | ⟨same, _⟩
  · rw [launched, launch, worker?_modify, if_neg other, none_given]
  · rw [same, none_given]

theorem stopSync_worker? : (v.stopSync a).worker? a = none := by
  rcases v.stopSync_cases a with ⟨i, _, released⟩ | ⟨none_given, same⟩
  · rw [released, release, worker?_modify, if_pos rfl]
    cases v.peers.get? a <;> rfl
  · rw [same, none_given]

theorem stopSync_worker?_none (a : NodeAddress) (none_given : v.worker? b = none) :
    (v.stopSync a).worker? b = none := by
  by_cases here : b = a
  · rw [here, stopSync_worker?]
  · rcases v.stopSync_cases a with ⟨i, _, released⟩ | ⟨_, same⟩
    · rw [released, release, worker?_modify, if_neg here, none_given]
    · rw [same, none_given]

end Serving

/-! ## Ends in between -/

/-- Steps are taken one after the other, and workers end on their own before, between and after them. -/
inductive Amid {α : Type} (step : View → α → View) : View → List α → View → Prop where
  | done (v : View) : Amid step v [] v
  | step {v v' : View} {x : α} {xs : List α} (rest : Amid step (step v x) xs v') : Amid step v (x :: xs) v'
  | finish {v v' : View} {xs : List α} (i : Nat) (rest : Amid step (v.finish i) xs v') : Amid step v xs v'

namespace Amid

variable {α : Type} {step : View → α → View} {v v' : View} {xs : List α} {base : List NodeAddress}

theorem foldl (step : View → α → View) (v : View) (xs : List α) : Amid step v xs (xs.foldl step v) := by
  induction xs generalizing v with
  | nil => exact .done v
  | cons x xs ih => exact .step (ih _)

theorem keeps {holds : View → Prop} (amid : Amid step v xs v') (each : ∀ v x, holds v → holds (step v x))
    (ended : ∀ v i, holds v → holds (v.finish i)) (first : holds v) : holds v' := by
  induction amid with
  | done => exact first
  | step _ ih => exact ih (each _ _ first)
  | finish i _ ih => exact ih (ended _ i first)

/-- Every peer that is ready has a worker started for it in the end. -/
theorem start_since {xs : List NodeAddress} (amid : Amid startSync v xs v') (attended : v.Attended base)
    (known : ∀ a ∈ xs, a ∈ v.peers.addresses) (ready : ∀ a ∈ xs, v.StartedSince base a ∨ v.worker? a = none) :
    v'.Attended base ∧ v.Serves v' ∧ ∀ a ∈ xs, v'.StartedSince base a := by
  induction amid with
  | done v => exact ⟨attended, .refl v, by simp⟩
  | @step v v' x xs rest ih =>
    have served := v.startSync_serves x
    have since : (v.startSync x).StartedSince base x :=
      startSync_since attended (known x List.mem_cons_self) (ready x List.mem_cons_self)
    obtain ⟨attended', serves, others⟩ := ih (attended.serves served (startSync_held attended.held x))
      (fun a member => served.addresses ▸ known a (List.mem_cons_of_mem _ member)) fun a member => by
        by_cases here : a = x
        · exact .inl (here ▸ since)
        · exact startSync_ready here (ready a (List.mem_cons_of_mem _ member))
    refine ⟨attended', served.trans serves, fun a member => ?_⟩
    rcases List.mem_cons.mp member with rfl | member
    · exact since.serves serves
    · exact others a member
  | @finish v v' xs i rest ih =>
    have served := v.finish_serves i
    obtain ⟨attended', serves, all⟩ := ih (attended.serves served (v.finish_held attended.held)) known
      fun a member => (ready a member).imp_left fun since => since.serves served
    exact ⟨attended', served.trans serves, all⟩

theorem stop_none {xs : List NodeAddress} (amid : Amid stopSync v xs v') (attended : v.Attended base) :
    v'.Attended base ∧ v.Serves v' ∧ ∀ a ∈ xs, v'.worker? a = none := by
  induction amid with
  | done v => exact ⟨attended, .refl v, by simp⟩
  | @step v v' x xs rest ih =>
    have served := v.stopSync_serves x
    obtain ⟨attended', serves, others⟩ := ih (attended.serves served (stopSync_held attended.held x))
    refine ⟨attended', served.trans serves, fun a member => ?_⟩
    rcases List.mem_cons.mp member with rfl | member
    · exact @keeps _ _ _ _ _ (fun v => v.worker? a = none) rest (fun _ b => stopSync_worker?_none b) (fun _ _ => id)
        stopSync_worker?
    · exact others a member
  | @finish v v' xs i rest ih =>
    have served := v.finish_serves i
    obtain ⟨attended', serves, all⟩ := ih (attended.serves served (v.finish_held attended.held))
    exact ⟨attended', served.trans serves, all⟩

end Amid

/-! ## Runs -/

/-- What an event makes of a view. The view's own workers may end while it takes its peers, or the states of a message,
one by one. -/
inductive Yields (v : View) : Event → View → Prop where
  | contact (now : UInt64) (a : NodeAddress) (range : KeyRange) :
      Yields v (.contact now a range) (v.contact now a range).2
  | merge {v' : View} (now : UInt64) (m : StatusMessage) (merged : Amid (fun v s => (v.mergeState s).2) v m.states v') :
      Yields v (.merge now m) { v' with lastUpdated := (v.merge now m).2.lastUpdated }
  | start {v' : View} (each : Amid startSync { v with running := true } v.peers.addresses v') : Yields v .start v'
  | stop {v' : View} (each : Amid stopSync { v with running := false } v.peers.addresses v') : Yields v .stop v'
  | finish (i : Nat) : Yields v (.finish i) (v.finish i)

inductive Course : View → List Event → View → Prop where
  | done (v : View) : Course v [] v
  | event {v v' v'' : View} {event : Event} {events : List Event} (first : v.Yields event v')
      (rest : Course v' events v'') : Course v (event :: events) v''

theorem yields_apply (v : View) (event : Event) : v.Yields event (v.apply event) := by
  cases event with
  | contact now a range => exact .contact now a range
  | merge now m =>
    have merged : v.apply (.merge now m) =
        { v.mergeStates m.states with lastUpdated := (v.merge now m).2.lastUpdated } := by
      simp only [apply, merge_eq]
      split <;> rfl
    rw [merged]
    exact .merge now m (.foldl ..)
  | start => exact .start (.foldl ..)
  | stop => exact .stop (.foldl ..)
  | finish i => exact .finish i

/-- Workers need not end but by events. -/
theorem course_replay (v : View) (events : List Event) : v.Course events (v.replay events) := by
  induction events generalizing v with
  | nil => exact .done v
  | cons event events ih => exact .event (v.yields_apply event) (ih _)

/-- Workers answer to the view's running: there are none while it does not run, and while it runs every peer has had
one since these. -/
structure Staffed (v : View) (base : List NodeAddress) : Prop extends Attended v base where
  stopped : v.running = false → ∀ a, v.worker? a = none
  manned : v.running = true → ∀ a ∈ v.peers.addresses, v.StartedSince base a

/-- What reports and contacts do about workers: nothing for known peers, and what the running asks for new ones. -/
inductive Meets (v : View) : View → Prop where
  | known {v' : View} (serves : v.Serves v') (workers : v'.workers = v.workers)
      (worker? : ∀ a, v'.worker? a = v.worker? a) : Meets v v'
  | new (a : NodeAddress) (s : NodeState) (status : PeerStatus) (unknown : v.peers.get? a = none) :
      Meets v (v.addPeer a s status)

section Staffing

variable {v v' : View} {base : List NodeAddress} {a : NodeAddress}

theorem contact_meets (v : View) (now : UInt64) (a : NodeAddress) (range : KeyRange) :
    v.Meets (v.contact now a range).2 := by
  simp only [contact]
  split
  · exact .known (.refl v) rfl fun _ => rfl
  · split
    · exact .known (.refl v) rfl fun _ => rfl
    · rename_i unknown
      exact .new a _ _ unknown

theorem mergeState_meets (v : View) (s : NodeState) : v.Meets (v.mergeState s).2 := by
  simp only [mergeState]
  split
  · exact .known (.refl v) rfl fun _ => rfl
  · split
    · rename_i unknown
      exact .new _ s _ unknown
    · rename_i p found
      refine .known ⟨rfl, rfl, Registry.addresses_modify .., List.prefix_rfl⟩ rfl fun a => ?_
      simp only [worker?, Registry.get?_modify]
      split
      · rename_i here
        simp [here, found, Peer.update_worker]
      · rfl

theorem Held.congr (held : v.Held) (workers : v'.workers = v.workers) (given : ∀ a, v'.worker? a = v.worker? a) :
    v'.Held := by
  intro i w there active
  rw [given]
  exact held i w (workers ▸ there) active

theorem worker?_enroll {s : NodeState} {status : PeerStatus} (unknown : v.peers.get? a = none) (b : NodeAddress) :
    (v.enroll a s status).worker? b = v.worker? b := by
  simp only [worker?, enroll, Registry.get?_insert]
  split
  · rename_i here
    simp [here, unknown]
  · rfl

/-- A new peer is given a worker if the view runs. -/
theorem Staffed.addPeer (staffed : v.Staffed base) (s : NodeState) (status : PeerStatus)
    (unknown : v.peers.get? a = none) : (v.addPeer a s status).Staffed base := by
  have given : ∀ b, (v.enroll a s status).worker? b = v.worker? b := worker?_enroll unknown
  have attended : (v.enroll a s status).Attended base :=
    ⟨staffed.runtime, staffed.held.congr rfl given, staffed.grown⟩
  have listed : (v.enroll a s status).peers.addresses = v.peers.addresses.filter (· ≠ a) ++ [a] :=
    Registry.addresses_insert ..
  cases on : v.running with
  | false =>
    have same : v.addPeer a s status = v.enroll a s status := by simp [View.addPeer, on, enroll]
    rw [same]
    refine ⟨attended, fun _ b => ?_, fun run => ?_⟩
    · rw [given, staffed.stopped on]
    · cases on.symm.trans run
  | true =>
    have started : v.addPeer a s status = (v.enroll a s status).startSync a := by simp [View.addPeer, on, enroll]
    have serves := (v.enroll a s status).startSync_serves a
    rw [started]
    refine ⟨attended.serves serves (startSync_held attended.held a), fun off => ?_, fun _ b member => ?_⟩
    · cases on.symm.trans (serves.running ▸ off)
    · rw [serves.addresses, listed] at member
      rcases List.mem_append.mp member with before | new
      · have since : (v.enroll a s status).StartedSince base b := staffed.manned on b (List.mem_filter.mp before).1
        exact since.serves serves
      · obtain rfl := List.mem_singleton.mp new
        have unstaffed : v.worker? b = none := by rw [worker?, unknown, Option.bind_none]
        exact startSync_since attended (by simp [listed]) (.inr ((given b).trans unstaffed))

theorem Staffed.meets (staffed : v.Staffed base) (meets : v.Meets v') : v'.Staffed base := by
  cases meets with
  | known serves workers given =>
    refine ⟨staffed.toAttended.serves serves (staffed.held.congr workers given), fun off a => ?_, fun on a member => ?_⟩
    · rw [given, staffed.stopped (serves.running ▸ off)]
    · exact (staffed.manned (serves.running ▸ on) a (serves.addresses ▸ member)).serves serves
  | new a s status unknown => exact staffed.addPeer s status unknown

theorem Staffed.finish (staffed : v.Staffed base) (i : Nat) : (v.finish i).Staffed base := by
  have serves := v.finish_serves i
  exact ⟨staffed.toAttended.serves serves (v.finish_held staffed.held), staffed.stopped,
    fun on a member => (staffed.manned on a member).serves serves⟩

theorem Staffed.yields (staffed : v.Staffed base) {event : Event} (yields : v.Yields event v') :
    v'.Staffed base := by
  cases yields with
  | contact now a range => exact staffed.meets (v.contact_meets now a range)
  | merge now m merged =>
    have kept : Staffed _ base := merged.keeps (fun v s staffed => Staffed.meets staffed (v.mergeState_meets s))
      (fun _ i staffed => Staffed.finish staffed i) staffed
    exact kept.meets (.known ⟨rfl, rfl, rfl, List.prefix_rfl⟩ rfl fun _ => rfl)
  | start each =>
    have attended : Attended { v with running := true } base := ⟨staffed.runtime, staffed.held, staffed.grown⟩
    -- peers of a running view have had their workers, and those of a view that did not run have none
    have ready : ∀ a ∈ v.peers.addresses, v.StartedSince base a ∨ v.worker? a = none := by
      intro a member
      cases on : v.running with
      | true => exact .inl (staffed.manned on a member)
      | false => exact .inr (staffed.stopped on a)
    obtain ⟨attended', serves, since⟩ := each.start_since attended (fun _ => id) ready
    refine ⟨attended', fun off => ?_, fun _ a member => since a (serves.addresses ▸ member)⟩
    cases serves.running.symm.trans off
  | stop each =>
    have attended : Attended { v with running := false } base := ⟨staffed.runtime, staffed.held, staffed.grown⟩
    obtain ⟨attended', serves, none_left⟩ := each.stop_none attended
    refine ⟨attended', fun _ a => ?_, fun on => ?_⟩
    · by_cases known : a ∈ v.peers.addresses
      · exact none_left a known
      · have unknown : a ∉ v'.peers.addresses := serves.addresses ▸ known
        rw [← Registry.get?_isSome_iff, Bool.not_eq_true, Option.isSome_eq_false_iff,
          Option.isNone_iff_eq_none] at unknown
        rw [worker?, unknown, Option.bind_none]
    · cases serves.running.symm.trans on
  | finish i => exact staffed.finish i

theorem Staffed.course (staffed : v.Staffed base) {events : List Event} (course : v.Course events v') :
    v'.Staffed base := by
  induction course with
  | done => exact staffed
  | event first _ ih => exact ih (staffed.yields first)

/-- What was started until some time when a view does not run may be left out of account. -/
theorem Staffed.anew (staffed : v.Staffed base) (off : v.running = false) : v.Staffed v.started :=
  ⟨⟨staffed.runtime, staffed.held, List.prefix_rfl⟩, staffed.stopped, fun on => by cases off.symm.trans on⟩

theorem make_staffed (space : KeySpace) (own : NodeState) (others : List NodeState) (updated : UInt64) :
    (make space own others updated true).Staffed [] := by
  have none_given (a : NodeAddress) : (make space own others updated true).worker? a = none := by
    refine List.foldlRecOn (motive := fun peers : Registry Peer => (peers.get? a).bind (·.worker) = none) others _ rfl
      fun peers none_given s _ => ?_
    split
    · exact none_given
    · rw [Registry.get?_insert]
      split
      · rfl
      · exact none_given
  have none_started : (make space own others updated true).Held := fun i w there => by simp [make] at there
  exact ⟨⟨rfl, none_started, List.nil_prefix⟩, fun _ => none_given, fun on => by simp [make] at on⟩

end Staffing

/-- Workers answer to the view's running, with a runtime at hand, whatever order it is started, stopped, contacted and
told in, and whenever workers end on their own. While it runs every peer has had a worker started since any time that it
did not; while it does not run no peer is in sync and every worker was cancelled or has ended; and no peer has two
workers at work. -/
theorem course_workers (space : KeySpace) (own : NodeState) (others : List NodeState) (updated : UInt64)
    {before after : List Event} {u v : View} (first : (make space own others updated true).Course before u)
    (rest : u.Course after v) :
    (u.running = false → v.running = true →
      ∃ fresh, v.started = u.started ++ fresh ∧ ∀ a ∈ v.peers.addresses, a ∈ fresh) ∧
    (v.running = false → (∀ a p, v.peers.get? a = some p → v.isSyncing p = false) ∧
      ∀ w ∈ v.workers, w.state = .cancelled ∨ w.state = .finished) ∧
    ∀ (i j : Nat) (w w' : Worker), v.workers[i]? = some w → v.workers[j]? = some w' → w.peer = w'.peer →
      w.state = .active → w'.state = .active → i = j := by
  have staffed : u.Staffed [] := (make_staffed space own others updated).course first
  have staffed' : v.Staffed [] := staffed.course rest
  refine ⟨fun off on => ?_, fun off => ⟨fun a p known => ?_, fun w member => ?_⟩, ?_⟩
  · have anew : v.Staffed u.started := (staffed.anew off).course rest
    obtain ⟨fresh, grown⟩ := anew.grown
    refine ⟨fresh, grown.symm, fun a member => ?_⟩
    obtain ⟨fresh', since, started⟩ := anew.manned on a member
    rwa [List.append_cancel_left (grown.trans since)]
  · rw [v.isSyncing_eq_false_iff known]
    intro i w given
    rw [staffed'.stopped off] at given
    cases given
  · obtain ⟨i, there⟩ := List.getElem?_of_mem member
    cases state : w.state with
    | active =>
      have given := staffed'.held i w there state
      rw [staffed'.stopped off] at given
      cases given
    | cancelled => exact .inl rfl
    | finished => exact .inr rfl
  · intro i j w w' there there' same active active'
    have given := staffed'.held i w there active
    have given' := staffed'.held j w' there' active'
    rw [same, given'] at given
    exact (Option.some.inj given).symm

/-- A peer that is known from the start, and one that makes contact; the worker of the first ends while the second is
started, and is started anew with the view; then a third is reported. -/
theorem sync_goes_on :
    let v := make .circle (.serving "a" 1) [.serving "b" 1] 0 true
    let u := v.replay [.contact 9 ⟨"c", 1⟩ KeySpace.circle.emptyRange]
    let w := ((({ u with running := true }.startSync ⟨"b", 1⟩).finish 0).startSync ⟨"c", 1⟩).replay
      [.start, .merge 10 ⟨10, 10, .serving "d" 1, []⟩]
    u.running = false ∧ w.running = true ∧ w.started = [⟨"b", 1⟩, ⟨"c", 1⟩, ⟨"b", 1⟩, ⟨"d", 1⟩] ∧
      ∃ fresh, w.started = u.started ++ fresh ∧ ∀ a ∈ w.peers.addresses, a ∈ fresh := by
  intro v u w
  have first : v.Course _ u := v.course_replay _
  have off : u.running = false := by decide
  have on : w.running = true := by decide
  have each : Amid startSync { u with running := true } u.peers.addresses
      ((({ u with running := true }.startSync ⟨"b", 1⟩).finish 0).startSync ⟨"c", 1⟩) :=
    .step (.finish 0 (.step (.done _)))
  have rest : u.Course (.start :: _) w := .event (.start each) (course_replay _ _)
  exact ⟨off, on, by decide, (course_workers _ _ _ _ first rest).1 off on⟩

end View
end ReplicaRing
