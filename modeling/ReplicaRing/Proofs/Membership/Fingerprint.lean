import Mathlib.Data.List.Perm.Basic
import ReplicaRing.Proofs.Fingerprint.Layout
import ReplicaRing.Proofs.Membership.Standing

/-! What the fingerprint of a view tells. Each peer has a share in a sum that wraps around, and what wraps around can
still be taken off again; so a change of one peer shows just if the hash of its state does change. As states are laid
out unambiguously, a change that does not show is a collision of the hash. -/
namespace ReplicaRing.View

open Fingerprint (bytes hashBytes)

variable {v v' : View} {a : NodeAddress} {s old new : NodeState}

theorem peerStates_eq (v : View) :
    v.peerStates = (v.peers.entries.map fun entry => (entry.1, entry.2.state)).map (·.2) := by
  rw [List.map_map]
  rfl

/-- Views that know the same list the same states, in an order of their own. -/
theorem peerStates_perm (same : ∀ a, v.state? a = v'.state? a) : v.peerStates.Perm v'.peerStates := by
  rw [peerStates_eq, peerStates_eq]
  exact (Registry.entries_perm same).map _

theorem fingerprint_of_perm {states : List NodeState} (perm : v.peerStates.Perm states) :
    v.fingerprint = states.foldl (fun sum s => sum + ReplicaRing.fingerprint s)
      (ReplicaRing.fingerprint v.space ^^^ ReplicaRing.fingerprint v.own) := by
  refine perm.foldl_eq' (fun s _ s' _ sum => ?_) _
  rw [UInt64.add_assoc, UInt64.add_assoc, UInt64.add_comm (ReplicaRing.fingerprint s)]

theorem fingerprint_of_states (own : v.own = v'.own) (space : v.space = v'.space)
    (same : ∀ a, v.state? a = v'.state? a) : v.fingerprint = v'.fingerprint := by
  rw [fingerprint_of_perm (peerStates_perm same), own, space]
  rfl

def without (v : View) (a : NodeAddress) : View := { v with peers := v.peers.erase a }

theorem state?_without (v : View) (a b : NodeAddress) : (v.without a).state? b = if b = a then none else v.state? b := by
  rw [without, state?, state?, Registry.get?_erase]
  split <;> rfl

/-- The share of a peer is the hash of its state. -/
theorem fingerprint_eq_add (known : v.state? a = some s) :
    v.fingerprint = (v.without a).fingerprint + ReplicaRing.fingerprint s := by
  -- entered again the peer is the last one, and what is before it is the view without it
  let last : View := { v with peers := v.peers.insert a ⟨s, .confirmed, none⟩ }
  have same : ∀ b, v.state? b = last.state? b := by
    intro b
    simp only [last, state?, Registry.get?_insert]
    split
    · rename_i here
      exact here ▸ known
    · rfl
  have states : last.peerStates = (v.without a).peerStates ++ [s] := List.map_append
  rw [fingerprint_of_perm (peerStates_perm same), states, List.foldl_append]
  rfl

/-- All that becomes different is the state that is known of one peer. -/
structure Replaces (v : View) (a : NodeAddress) (old new : NodeState) (v' : View) : Prop where
  own : v'.own = v.own
  space : v'.space = v.space
  others : ∀ b, b ≠ a → v'.state? b = v.state? b
  before : v.state? a = some old
  after : v'.state? a = some new

theorem Replaces.fingerprint_eq_iff (replaces : v.Replaces a old new v') :
    v'.fingerprint = v.fingerprint ↔ ReplicaRing.fingerprint new = ReplicaRing.fingerprint old := by
  have rest : (v'.without a).fingerprint = (v.without a).fingerprint := by
    refine fingerprint_of_states replaces.own replaces.space fun b => ?_
    rw [state?_without, state?_without]
    split
    · rfl
    · rename_i other
      exact replaces.others b other
  rw [fingerprint_eq_add replaces.before, fingerprint_eq_add replaces.after, rest, UInt64.add_right_inj]

theorem mergeState_replaces (apart : s.address ≠ v.own.address) {status : PeerStatus}
    (known : v.record? s.address = some ⟨old, status⟩)
    (taken : status = .provisional ∨ old.lastUpdated < s.lastUpdated) :
    v.Replaces s.address old s (v.mergeState s).2 := by
  have revises := v.mergeState_revises s apart
  refine ⟨revises.own, revises.space, fun b other => ?_, ?_, ?_⟩
  · rw [state?_eq, revises.record?, if_neg other, state?_eq]
  · rw [state?_eq, known]
    rfl
  · rw [state?_eq, revises.record?, if_pos rfl, known]
    cases status with
    | provisional => rfl
    | confirmed =>
      have newer : old.lastUpdated < s.lastUpdated := taken.resolve_left (nomatch ·)
      simp [Record.take, NodeState.renew, UInt64.not_le.mpr newer]

theorem fingerprint_mergeState_stale (apart : s.address ≠ v.own.address) {status : PeerStatus}
    (known : v.record? s.address = some ⟨old, status⟩)
    (stale : ¬ (status = .provisional ∨ old.lastUpdated < s.lastUpdated)) :
    (v.mergeState s).2.fingerprint = v.fingerprint := by
  obtain ⟨confirmed, older⟩ := not_or.mp stale
  obtain rfl : status = .confirmed := by cases status <;> trivial
  have revises := v.mergeState_revises s apart
  refine fingerprint_of_states revises.own revises.space fun b => ?_
  rw [state?_eq, state?_eq, revises.record?]
  split
  · rename_i here
    simp [here, known, Record.take, NodeState.renew, UInt64.not_lt.mp older]
  · rfl

/-- A fingerprint misses only collisions. Equal bytes are bytes of equal states; so where an update changes what is
known of one peer, the fingerprint changes just if the hash of the peer's state does, and if it does not, the hash of
two different byte sequences is the same. Updates are all that can happen to a view, in particular a report on a
known peer, which changes it just if it is taken. -/
theorem fingerprint_misses_collisions_only :
    (∀ s s' : NodeState, bytes s = bytes s' → s = s') ∧
    (∀ (v v' : View) (a : NodeAddress) (old new : NodeState), v.Replaces a old new v' →
      (v'.fingerprint ≠ v.fingerprint ↔ hashBytes (bytes new) ≠ hashBytes (bytes old)) ∧
      (new ≠ old → v'.fingerprint = v.fingerprint →
        bytes new ≠ bytes old ∧ hashBytes (bytes new) = hashBytes (bytes old))) ∧
    (∀ (v : View) (events : List Event) (a : NodeAddress) (old new : NodeState),
      v.state? a = some old → (v.replay events).state? a = some new →
      (∀ b, b ≠ a → (v.replay events).state? b = v.state? b) → v.Replaces a old new (v.replay events)) ∧
    ∀ (v : View) (s old : NodeState) (status : PeerStatus), s.address ≠ v.own.address →
      v.record? s.address = some ⟨old, status⟩ →
      ((v.mergeState s).2.fingerprint ≠ v.fingerprint ↔
        (status = .provisional ∨ old.lastUpdated < s.lastUpdated) ∧ hashBytes (bytes s) ≠ hashBytes (bytes old)) := by
  refine ⟨fun s s' same => Fingerprint.bytes_injective same, fun v v' a old new replaces => ⟨?_, fun differs same => ?_⟩,
    fun v events a old new before after others => ?_, fun v s old status apart known => ?_⟩
  · exact not_congr replaces.fingerprint_eq_iff
  · exact ⟨mt Fingerprint.bytes_injective differs, replaces.fingerprint_eq_iff.mp same⟩
  · have frame := v.replay_frame events
    exact ⟨frame.own, frame.space, others, before, after⟩
  · by_cases taken : status = .provisional ∨ old.lastUpdated < s.lastUpdated
    · rw [and_iff_right taken]
      exact not_congr (mergeState_replaces apart known taken).fingerprint_eq_iff
    · rw [fingerprint_mergeState_stale apart known taken]
      simp [taken]

theorem bytes_serving (host : String) (updated : UInt64) : bytes (NodeState.serving host updated) =
    host.toList.flatMap String.utf8EncodeChar ++ [0xff] ++ bytes (1 : UInt16) ++ bytes (none : Option UInt32) ++
      bytes KeySpace.circle.fullRange ++ bytes KeySpace.circle.fullRange ++ bytes false ++ bytes updated := by
  rw [← Fingerprint.utf8_toList]
  rfl

/-- A newer report on one of two peers shows, merged by itself or in a message. -/
theorem newer_report_noticed :
    let v := make .circle (.serving "a" 1) [.serving "b" 2, .serving "c" 2] 0 true
    let s := NodeState.serving "b" 5
    let v' := v.replay [.merge 9 ⟨9, 9, s, []⟩]
    v.record? ⟨"b", 1⟩ = some ⟨.serving "b" 2, .confirmed⟩ ∧ bytes s ≠ bytes (NodeState.serving "b" 2) ∧
      v.Replaces ⟨"b", 1⟩ (.serving "b" 2) s v' ∧ v'.fingerprint ≠ v.fingerprint ∧
      (v.mergeState s).2.fingerprint ≠ v.fingerprint := by
  intro v s v'
  obtain ⟨injective, shows, updates, reports⟩ := fingerprint_misses_collisions_only
  have apart : s.address ≠ v.own.address := by decide
  have known : v.record? s.address = some ⟨.serving "b" 2, .confirmed⟩ := by decide
  have differs : hashBytes (bytes s) ≠ hashBytes (bytes (NodeState.serving "b" 2)) := by
    rw [bytes_serving, bytes_serving]
    decide +kernel
  have others : ∀ b, b ≠ ⟨"b", 1⟩ → v'.state? b = v.state? b := by
    intro b other
    have revised : v'.record? b = v.record? b :=
      ((v.merge_keeps 9 ⟨9, 9, s, []⟩).record? b).trans
        (((v.mergeState_revises s apart).record? b).trans (if_neg other))
    rw [state?_eq, state?_eq, revised]
  have replaces := updates v [.merge 9 ⟨9, 9, s, []⟩] ⟨"b", 1⟩ (.serving "b" 2) s (by decide) (by decide) others
  refine ⟨known, fun same => absurd (injective _ _ same) (by decide), replaces, ?_, ?_⟩
  · exact (shows v v' ⟨"b", 1⟩ _ s replaces).1.mpr differs
  · exact (reports v s _ .confirmed apart known).mpr ⟨.inr (by decide), differs⟩

end ReplicaRing.View
