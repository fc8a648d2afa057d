import ReplicaRing.Proofs.Routing.Message

/-! A status message that comes again. On every node it says what the table has taken already, except that its
sender's own word counts whatever its age: it puts the sender back to where the message begins, and what the
message goes on to say of the sender is taken once more. The table ends as it was, but it only keeps its version
where a message does not take back what it said of its sender. -/
namespace ReplicaRing

/-- A message takes back what it says of its sender: a peer's state that is seen to be the sender's is newer than
all that the message said of the sender before, its own state first, and stands elsewhere than the newest of
that. -/
def StatusMessage.Revokes (m : StatusMessage) (sender : NodeAddress) : Prop :=
  ∃ before s after, m.peers = before ++ s :: after ∧ RoutingTable.resolve sender s = sender ∧
    ∃ said, NodeState.newest? (m.sender :: RoutingTable.peersOn sender sender before) = some said ∧
      said.lastUpdated < s.lastUpdated ∧ s.placement ≠ said.placement

namespace RoutingTable

section Silence

variable (t : RoutingTable)

theorem changeNode_silent_iff {a : NodeAddress} {n n' : ServerNode} :
    (t.changeNode a n n').1 = false ↔ n.placement = n'.placement := by
  unfold changeNode
  split <;> simp_all

theorem updateDirect_silent_iff {a : NodeAddress} {s : NodeState} {request response cluster : UInt64} :
    (t.updateDirect a s request response cluster).1 = false ↔
      ∃ n, t.nodes.get? a = some n ∧ n.placement = s.placement := by
  simp only [updateDirect]
  split
  · rename_i n known
    simp only [known, Option.some.injEq, exists_eq_left']
    exact t.changeNode_silent_iff
  · rename_i unknown
    simp [unknown]

theorem updateIndirect_silent_iff {reporter : NodeAddress} {s : NodeState} :
    (t.updateIndirect reporter s).1 = false ↔ ∃ n, t.nodes.get? (resolve reporter s) = some n ∧
      (n.nodeFetched < s.lastUpdated → n.placement = s.placement) := by
  simp only [updateIndirect]
  split
  · rename_i n known
    simp only [known, Option.some.injEq, exists_eq_left']
    split
    · rename_i stale
      simp [UInt64.not_lt.mpr stale]
    · rename_i newer
      simp only [UInt64.not_le.mp newer, true_imp_iff]
      exact t.changeNode_silent_iff
  · rename_i unknown
    simp [unknown]

def hear (sender : NodeAddress) (heard : Bool × RoutingTable) (s : NodeState) : Bool × RoutingTable :=
  (heard.1 || (heard.2.updateIndirect sender s).1, (heard.2.updateIndirect sender s).2)

theorem ingest_eq_hear (sender : NodeAddress) (m : StatusMessage) (request response : UInt64) :
    t.ingest sender m request response =
      m.peers.foldl (hear sender) (t.updateDirect sender m.sender request response m.clusterUpdated) := rfl

theorem hear_silent_iff (sender : NodeAddress) (peers : List NodeState) (heard : Bool × RoutingTable) :
    (peers.foldl (hear sender) heard).1 = false ↔ heard.1 = false ∧
      ∀ before s after, peers = before ++ s :: after →
        (((before.map (.indirect sender)).foldl apply heard.2).updateIndirect sender s).1 = false := by
  induction peers generalizing heard with
  | nil => simp
  | cons s peers ih =>
    rw [List.foldl_cons, ih]
    simp only [hear, Bool.or_eq_false_iff, and_assoc]
    refine and_congr_right fun _ => ⟨?_, fun silent => ⟨silent [] s peers rfl, fun before s' after split => ?_⟩⟩
    · rintro ⟨first, later⟩ before s' after split
      rcases List.cons_eq_append_iff.mp split with ⟨rfl, same⟩ | ⟨before, rfl, rest⟩
      · cases same
        exact first
      · exact later before s' after rest
    · exact silent (s :: before) s' after (by rw [split, List.cons_append])

/-- A message says that routing changed just if the version rose. -/
theorem ingest_version (sender : NodeAddress) (m : StatusMessage) (request response : UInt64) :
    let told := t.ingest sender m request response
    t.version ≤ told.2.version ∧ (told.1 = false ↔ told.2.version = t.version) := by
  intro told
  let honest (heard : Bool × RoutingTable) : Prop :=
    t.version ≤ heard.2.version ∧ (heard.1 = false ↔ heard.2.version = t.version)
  have starts : honest (t.updateDirect sender m.sender request response m.clusterUpdated) := by
    have version := (t.updateDirect_changes sender m.sender request response m.clusterUpdated).version
    simp only [honest, version]
    split <;> simp_all
  refine List.foldlRecOn (motive := honest) m.peers (hear sender) starts fun heard before s _ => ?_
  have version := (heard.2.updateIndirect_changes sender s).version
  obtain ⟨le, same⟩ := before
  simp only [honest, hear, version, Bool.or_eq_false_iff, same]
  split
  · simp_all
    omega
  · simp_all

end Silence

section Knowing

variable {t : RoutingTable} {a : NodeAddress}

/-- After a report on it a node is known. -/
theorem revise_report {event : Event} (report : event.state? ≠ none) (known : Option ServerNode) :
    ∃ n, event.revise known = some n := by
  cases event with
  | direct b s request response cluster => exact ⟨_, rfl⟩
  | indirect reporter s =>
    cases known with
    | none => exact ⟨_, rfl⟩
    | some n =>
      simp only [Event.revise]
      split <;> exact ⟨_, rfl⟩
  | hint | remove | lookup => exact absurd rfl report

theorem addresses_apply {event : Event} (report : event.state? ≠ none) (about : event.about? = some a)
    (known : a ∈ t.nodes.addresses) : (t.apply event).nodes.addresses = t.nodes.addresses := by
  obtain ⟨n, revised⟩ := revise_report report (t.nodes.get? a)
  simp only [nodes_apply, about, revised]
  rw [Registry.settle, if_pos (t.nodes.get?_isSome_iff.mpr known), Registry.addresses_modify]

theorem addresses_taking {sender : NodeAddress} {m : StatusMessage} {request response : UInt64}
    (sender_known : sender ∈ t.nodes.addresses) (known : ∀ s ∈ m.peers, resolve sender s ∈ t.nodes.addresses) :
    ((taking sender m request response).foldl apply t).nodes.addresses = t.nodes.addresses := by
  refine List.foldlRecOn (motive := fun t' : RoutingTable => t'.nodes.addresses = t.nodes.addresses) _ _ rfl
    fun t' same event member => ?_
  rcases List.mem_cons.mp member with rfl | peer
  · exact (addresses_apply (by simp [Event.state?]) rfl (same ▸ sender_known)).trans same
  · obtain ⟨s, among, rfl⟩ := List.mem_map.mp peer
    exact (addresses_apply (by simp [Event.state?]) rfl (same ▸ known s among)).trans same

variable {space : KeySpace} {events events' : List Event}

theorem known_of_standing (stands : standing a events ≠ []) : a ∈ (replay space events).nodes.addresses := by
  rw [← Registry.get?_isSome_iff, replay_get?_isSome_iff]
  exact mt (standing_eq_nil_iff a events).mpr stands

/-- Tables agree on a node if the newest of what stands is the same. -/
theorem get?_congr (newest : NodeState.newest? (standing a events) = NodeState.newest? (standing a events')) :
    ((replay space events).nodes.get? a).map (·.account) = ((replay space events').nodes.get? a).map (·.account) := by
  have shows := replay_shows space events a
  have shows' := replay_shows space events' a
  rw [newest] at shows
  generalize NodeState.newest? (standing a events') = known at shows shows'
  generalize (replay space events).nodes.get? a = found at shows ⊢
  generalize (replay space events').nodes.get? a = found' at shows' ⊢
  cases shows with
  | none => cases shows'; rfl
  | some shown =>
    cases shows' with
    | some shown' => simp only [Option.map_some, shown.account, shown'.account]

end Knowing

section Again

variable (space : KeySpace) (events : List Event) (sender : NodeAddress) (m : StatusMessage)
  (request response request' response' : UInt64) {before after : List NodeState} {s : NodeState}

/-- While a message comes again, what counts on its sender is what came again, and on others what was there. -/
theorem newest?_again (split : m.peers = before ++ after) (a : NodeAddress) :
    NodeState.newest? (standing a (events ++ taking sender m request response ++
        taking sender { m with peers := before } request' response')) =
      if sender = a then NodeState.newest? (m.sender :: peersOn sender a before)
      else NodeState.newest? (standing a (events ++ taking sender m request response)) := by
  rw [standing_taking]
  split
  · rfl
  · rename_i other
    refine NodeState.newest?_append_of_subset fun s member => ?_
    rw [standing_taking, split, peersOn, List.filter_append]
    exact List.mem_append_right _ (List.mem_append_left _ member)

/-- A report that comes again changes something just if it is on the sender, newer than what came again before it,
and stands elsewhere. -/
theorem report_again_silent_iff (split : m.peers = before ++ s :: after) :
    ((replay space (events ++ taking sender m request response ++
        taking sender { m with peers := before } request' response')).updateIndirect sender s).1 = false ↔
      ∀ said, resolve sender s = sender →
        NodeState.newest? (m.sender :: peersOn sender sender before) = some said →
        said.lastUpdated < s.lastUpdated → s.placement = said.placement := by
  have again := newest?_again events sender m request response request' response' split (resolve sender s)
  rw [updateIndirect_silent_iff]
  by_cases here : resolve sender s = sender
  · rw [here, if_pos rfl] at again
    obtain ⟨said, newest⟩ := Option.ne_none_iff_exists'.mp
      (mt NodeState.newest?_eq_none.mp (List.cons_ne_nil m.sender (peersOn sender sender before)))
    obtain ⟨n, found, placed, fetched⟩ := node?_shows space (again.trans newest)
    rw [replay_node?] at found
    simp only [here, found, newest, Option.some.injEq, exists_eq_left', forall_eq', true_imp_iff, placed, fetched]
    exact imp_congr_right fun _ => eq_comm
  · refine iff_of_true ?_ fun said same => absurd same here
    have among : s ∈ standing (resolve sender s) (events ++ taking sender m request response) := by
      rw [standing_taking, split]
      exact List.mem_append_right _ (List.mem_filter.mpr ⟨by simp, by simp⟩)
    obtain ⟨latest, newest⟩ := Option.ne_none_iff_exists'.mp
      (mt NodeState.newest?_eq_none.mp (List.ne_nil_of_mem among))
    rw [if_neg (Ne.symm here)] at again
    obtain ⟨n, found, -, fetched⟩ := node?_shows space (again.trans newest)
    rw [replay_node?] at found
    refine ⟨n, found, fun newer => absurd newer ?_⟩
    rw [fetched]
    exact UInt64.not_lt.mpr (NodeState.le_of_newest? newest among)

variable {sender m}

/-- Where a message takes nothing back, all it counts on of its sender stands as the sender's own word. -/
theorem placement_of_not_revokes (keeps : ¬ m.Revokes sender) (split : m.peers = before ++ after) {said : NodeState}
    (newest : NodeState.newest? (m.sender :: peersOn sender sender before) = some said) :
    said.placement = m.sender.placement := by
  -- From the front of the message on, as what is taken back is taken back from what came before.
  induction before using List.reverseRecOn generalizing after said with
  | nil =>
    cases newest
    rfl
  | append_singleton before s ih =>
    rw [List.append_assoc, List.singleton_append] at split
    by_cases here : resolve sender s = sender
    · obtain ⟨known, earlier⟩ := Option.ne_none_iff_exists'.mp
        (mt NodeState.newest?_eq_none.mp (List.cons_ne_nil m.sender (peersOn sender sender before)))
      have stood := ih split earlier
      have more : peersOn sender sender (before ++ [s]) = peersOn sender sender before ++ [s] := by
        simp [peersOn, here]
      rw [more, ← List.cons_append, NodeState.newest?_concat, earlier] at newest
      simp only [Option.some.injEq, NodeState.renew] at newest
      split at newest
      · rw [← newest, stood]
      · rename_i newer
        rw [← newest, ← stood]
        by_contra differs
        exact keeps ⟨before, s, after, split, here, known, earlier, UInt64.not_le.mp newer, differs⟩
    · have same : peersOn sender sender (before ++ [s]) = peersOn sender sender before := by
        simp [peersOn, here]
      exact ih split (same ▸ newest)

/-- A message that comes again is silent just if it takes nothing back. -/
theorem ingest_again_silent_iff :
    (((replay space events).ingest sender m request response).2.ingest sender m request' response').1 = false ↔
      ¬ m.Revokes sender := by
  rw [ingest_replay, ingest_eq_hear, hear_silent_iff, updateDirect_silent_iff]
  have so_far (before : List NodeState) : (before.map (.indirect sender)).foldl apply
        ((replay space (events ++ taking sender m request response)).updateDirect sender m.sender request' response'
          m.clusterUpdated).2 =
      replay space (events ++ taking sender m request response ++
        taking sender { m with peers := before } request' response') :=
    (replay_append space _ (taking sender { m with peers := before } request' response')).symm
  have report_again {before s after} (split : m.peers = before ++ s :: after) :=
    report_again_silent_iff space events sender m request response request' response' split
  simp only [so_far]
  constructor
  · rintro ⟨-, silent⟩ ⟨before, s, after, split, here, said, newest, newer, differs⟩
    exact differs ((report_again split).mp (silent before s after split) said here newest newer)
  · intro keeps
    refine ⟨?_, fun before s after split => (report_again split).mpr fun said here newest newer => ?_⟩
    · obtain ⟨said, newest⟩ := Option.ne_none_iff_exists'.mp
        (mt NodeState.newest?_eq_none.mp (List.cons_ne_nil m.sender (peersOn sender sender m.peers)))
      have stands : NodeState.newest? (standing sender (events ++ taking sender m request response)) = some said := by
        rw [standing_taking, if_pos rfl, List.singleton_append, newest]
      obtain ⟨n, found, placed, -⟩ := node?_shows space stands
      rw [replay_node?] at found
      exact ⟨n, found, placed.trans (placement_of_not_revokes keeps (List.append_nil _).symm newest)⟩
    · by_contra differs
      exact keeps ⟨before, s, after, split, here, said, newest, newer, differs⟩

theorem accounts_again :
    (((replay space events).ingest sender m request response).2.ingest sender m request' response').2.accounts =
      ((replay space events).ingest sender m request response).2.accounts := by
  let known := events ++ taking sender m request response
  have whole (a : NodeAddress) : NodeState.newest? (standing a (known ++ taking sender m request' response')) =
      NodeState.newest? (standing a known) := by
    rw [newest?_again events sender m request response request' response' (List.append_nil _).symm a]
    split
    · rename_i here
      rw [standing_taking, if_pos here, List.singleton_append]
    · rfl
  have sender_known : sender ∈ (replay space known).nodes.addresses :=
    known_of_standing (by simp [known, standing_taking])
  have peers_known : ∀ s ∈ m.peers, resolve sender s ∈ (replay space known).nodes.addresses := by
    intro s member
    refine known_of_standing (List.ne_nil_of_mem (a := s) ?_)
    rw [standing_taking]
    exact List.mem_append_right _ (List.mem_filter.mpr ⟨member, by simp⟩)
  have addresses : (replay space (known ++ taking sender m request' response')).nodes.addresses =
      (replay space known).nodes.addresses := by
    rw [replay_append]
    exact addresses_taking sender_known peers_known
  rw [ingest_replay, ingest_replay]
  simp only [accounts, discovered_eq (replay_listed space _)]
  exact Registry.map_entries_congr addresses fun a => get?_congr (whole a)

end Again

/-- A redelivered message changes no node. Whatever happened to a table, taking a message again right after it, at
whatever times, leaves every node where it stands and as fresh, in the same order; it reports no change and
leaves the version just if the message does not take back what it says of its sender. -/
theorem redelivery_silent_iff (space : KeySpace) (events : List Event) (sender : NodeAddress) (m : StatusMessage)
    (request response request' response' : UInt64) :
    let first := (replay space events).ingest sender m request response
    let second := first.2.ingest sender m request' response'
    (second.1 = false ↔ ¬ m.Revokes sender) ∧ (second.2.version = first.2.version ↔ ¬ m.Revokes sender) ∧
      second.2.accounts = first.2.accounts := by
  intro first second
  have silent : second.1 = false ↔ ¬ m.Revokes sender :=
    ingest_again_silent_iff space events request response request' response'
  have honest := (ingest_version first.2 sender m request' response').2
  exact ⟨silent, honest.symm.trans silent, accounts_again space events request response request' response'⟩

/-- A sender that serves a circle, and a peer's later word that it serves nothing. -/
def takenBack : StatusMessage :=
  ⟨2, 2, everywhere false 1, [⟨⟨"a", 1⟩, none, quarters.emptyRange, quarters.emptyRange, false, 2⟩]⟩

/-- Taken again, it changes routing twice. -/
theorem taken_back_again :
    let first := (empty quarters).ingest ⟨"a", 1⟩ takenBack 3 4
    let second := first.2.ingest ⟨"a", 1⟩ takenBack 5 6
    second.1 = true ∧ first.2.version = 3 ∧ second.2.version = 5 := by
  decide

end RoutingTable
end ReplicaRing
