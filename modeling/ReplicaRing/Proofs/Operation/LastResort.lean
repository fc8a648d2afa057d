import ReplicaRing.Proofs.Operation.Order

/-! Disabled nodes are the last resort. With the nodes in order at each stage, no round asks a node twice or
overtakes one that it has still to ask, and disabled nodes are asked when all that can be tried with the
others was tried. -/
namespace ReplicaRing

variable {ω α : Type}

def Operation.Queues (op : Operation ω α) (world : ω) (before : List (Attempt α)) (node : Candidate) : Round → Prop
  | .primary => op.network.isDisabled world node.address = false
  | .disabled => op.network.isDisabled world node.address = true
  | .retry | .extra _ => ∃ outcome ∈ (outcomesOn before node).getLast?, outcome.isRetriable = true

theorem Round.Repeats.queues {round : Round} (repeats : round.Repeats) {op : Operation ω α} {world : ω}
    {before : List (Attempt α)} {node : Candidate} : op.Queues world before node round ↔
      ∃ outcome ∈ (outcomesOn before node).getLast?, outcome.isRetriable = true := by
  cases round with
  | primary | disabled => contradiction
  | retry | extra number => rfl

namespace Stage

variable {op : Operation ω α} {seen : ω → Prop} {world : ω} {nodes : List NodeAddress} {s : Stage ω α}

section Made

variable (h : s.Known op seen world nodes) {a : Attempt α} (makes : op.Makes s a)
include h makes

/-- An attempt is made behind all others of its round. -/
theorem Known.increases {b : Attempt α} (made : b ∈ s.run.attempts) (same : b.round = a.round) :
    b.node.position < a.node.position := by
  rw [makes.round] at same
  obtain ⟨may, asks, logged⟩ := makes
  generalize a.node = node at asks
  cases asks with
  | first head sweeps => exact h.behind made (by simp [untried, head])
  | again head retries => exact h.inOrder.passed b made same _ (by simp [head])

/-- When a node is asked again, those before it that may recover had their turn. -/
theorem Known.none_passed {c : Candidate} (before : c.position < a.node.position)
    (routed : op.Routed seen world nodes) (repeats : s.round.Repeats) {outcome : CallResult α}
    (last : (s.run.outcomes c).getLast? = some outcome)
    (passes : outcome.isRetriable = true) : ∃ b ∈ s.run.attempts, b.node = c ∧ b.round = s.round := by
  obtain ⟨may, asks, logged⟩ := makes
  generalize a.node = node at asks before
  cases asks with
  | first head sweeps =>
    rcases sweeps with ⟨primary, _⟩ | disabled
    · simp [primary, Round.Repeats] at repeats
    · simp [disabled, Round.Repeats] at repeats
  | @again f kept later head retries =>
    cases outcome with
    | success value => contradiction
    | missing => contradiction
    | failure cause =>
      obtain ⟨g, waits, rfl⟩ := h.accounted.waits h.final routed.allowed last passes
      have sorted := h.retries_sorted
      rw [retries, List.pairwise_append, List.pairwise_cons] at sorted
      obtain ⟨had, places, turned⟩ := h.inOrder.turned
      obtain rfl : had = kept := List.append_cancel_right (places.symm.trans (head ▸ retries))
      rw [retries, List.mem_append, List.mem_cons] at waits
      rcases waits with turn | rfl | behind
      · exact turned repeats g turn
      · exact absurd before (Nat.lt_irrefl _)
      · exact absurd before (Nat.lt_asymm (sorted.2.1.1 g behind))

/-- When a node is asked for the first time, those before it that the round asks had their turn. -/
theorem Known.none_missed {c : Candidate} (member : c ∈ s.run.candidates) (before : c.position < a.node.position)
    (routed : op.Routed seen world nodes) (sweeps : s.round = .primary ∨ s.round = .disabled)
    (queued : op.Queues world s.run.attempts c s.round) :
    ∃ b ∈ s.run.attempts, b.node = c ∧ b.round = s.round := by
  obtain ⟨may, asks, logged⟩ := makes
  generalize a.node = node at asks before
  cases asks with
  | again head retries => simp [h.paced.sweeps sweeps] at head
  | @first _ fresh head first =>
    have waits : s.untried = node :: fresh := by rw [untried, h.none_skipped routed head first, head, List.nil_append]
    have sorted := h.sorted.sublist (waits ▸ h.defers.order)
    have tried : c ∉ s.untried := by
      intro untried
      rcases List.mem_cons.mp (waits ▸ untried) with rfl | later
      · exact Nat.lt_irrefl _ before
      · exact Nat.lt_asymm before ((List.pairwise_cons.mp sorted).1 c later)
    obtain ⟨b, made, rfl⟩ := Run.asked_of_outcomes (((h.accounted.covers c).mp member).resolve_left tried)
    refine ⟨b, made, rfl, Round.rank_injective (Nat.le_antisymm (h.inOrder.rank b made) ?_)⟩
    rcases sweeps with primary | disabled
    · exact primary ▸ Nat.zero_le _
    · -- A node that is disabled was not asked in the rounds before.
      rw [disabled] at queued ⊢
      refine Nat.lt_of_not_le fun early => ?_
      rw [Operation.Queues, h.inOrder.enabled b made early] at queued
      contradiction

/-- Whatever node is asked, those before it that the round asks had their turn. -/
theorem Known.none_overtaken {c : Candidate} (member : c ∈ s.run.candidates) (before : c.position < a.node.position)
    (routed : op.Routed seen world nodes) (queued : op.Queues world s.run.attempts c a.round) :
    ∃ b ∈ s.run.attempts, b.node = c ∧ b.round = a.round := by
  rw [makes.round] at queued ⊢
  cases round : s.round with
  | primary => exact round ▸ h.none_missed makes member before routed (.inl round) queued
  | disabled => exact round ▸ h.none_missed makes member before routed (.inr round) queued
  | retry | extra number =>
    have repeats : s.round.Repeats := by rw [round]; trivial
    obtain ⟨outcome, last, passes⟩ := repeats.queues.mp queued
    exact round ▸ h.none_passed makes before routed repeats last passes

end Made

/-- An enabled node that still waits after the first two rounds was asked in both. -/
theorem Known.asked_twice (h : s.Known op seen world nodes) (late : Round.retry.rank < s.round.rank)
    {f : NodeFailure} (waits : f ∈ s.run.retries) (enabled : op.network.isDisabled world f.node.address = false) :
    2 ≤ (s.run.outcomes f.node).length := by
  have turns : ∃ next, 2 ≤ next ∧ s.run.AskedUntil f.node next := by
    cases round : s.round with
    | primary | retry => simp [round, Round.rank] at late
    | disabled => exact ⟨_, by simp [round, Round.turn], h.paced.all_asked (h.paced.sweeps (.inr round)) f waits⟩
    | extra number =>
      have some : number ≠ 0 := fun none => h.inOrder.number (round.trans (congrArg Round.extra none))
      obtain ⟨kept, retries, asked, due⟩ := h.paced.waiting
      rw [retries, List.mem_append] at waits
      rcases waits with turn | last
      · exact ⟨_, by simp [round, Round.turn], asked f turn⟩
      · exact ⟨_, by simp [round, Round.turn]; omega, due f last⟩
  obtain ⟨next, twice, asked⟩ := turns
  obtain ⟨first, rest, rounds⟩ := List.exists_cons_of_ne_nil (Operation.rounds_ne_nil asked)
  have began : (s.run.rounds f.node).head? = some first := by rw [rounds, List.head?_cons]
  have length := Operation.outcomes_length asked began
  rcases h.paced.began f.node first began with rfl | rfl
  · rw [length]
    exact twice
  · have member : Round.disabled ∈ s.run.rounds f.node := by simp [rounds]
    obtain ⟨a, made, round⟩ := List.mem_map.mp member
    obtain ⟨made, named⟩ := List.mem_filter.mp made
    have disabled := h.inOrder.disabled a made round
    rw [of_decide_eq_true named, enabled] at disabled
    contradiction

/-- When a disabled node is asked, each enabled one was asked, and twice if it might recover. -/
theorem Known.enabled_before (h : s.Known op seen world nodes) (routed : op.Routed seen world nodes) {a : Attempt α}
    (makes : op.Makes s a) (disabled : op.network.isDisabled world a.node.address = true) {c : Candidate}
    (member : c ∈ s.run.candidates) (enabled : op.network.isDisabled world c.address = false) :
    s.run.outcomes c ≠ [] ∧ ∀ outcome ∈ (s.run.outcomes c).head?, outcome.isRetriable = true →
      2 ≤ (s.run.outcomes c).length := by
  have late : Round.retry.rank < s.round.rank := by
    refine Nat.lt_of_not_le fun early => ?_
    rw [(h.flag routed makes).1 (makes.round ▸ early)] at disabled
    contradiction
  have tried : c ∉ s.untried := by
    intro untried
    refine absurd enabled (Bool.not_eq_false _ ▸ ?_)
    rcases List.mem_append.mp untried with skipped | fresh
    · exact h.skipped_disabled routed skipped
    · refine h.fresh_disabled routed (fun primary => ?_) fresh
      rw [primary] at late
      contradiction
  have asked := ((h.accounted.covers c).mp member).resolve_left tried
  refine ⟨asked, fun outcome first passes => ?_⟩
  refine Nat.not_lt.mp fun once => ?_
  have some := List.length_pos_iff.mpr asked
  obtain ⟨only, single⟩ := List.length_eq_one_iff.mp (Nat.le_antisymm (Nat.le_of_lt_succ once) some)
  rw [single, List.head?_cons, Option.mem_some_iff] at first
  subst first
  cases only with
  | success value => contradiction
  | missing => contradiction
  | failure cause =>
    obtain ⟨f, waits, rfl⟩ := h.accounted.waits h.final routed.allowed (by rw [single]; rfl) passes
    exact absurd (h.asked_twice late waits enabled) (Nat.not_le.mpr once)

end Stage

namespace Operation

/-- Disabled nodes are the last resort, and rounds go in the order of the nodes. With retries, over nodes
whose flags stay and of which the enabled ones stand first: a disabled node is asked when every enabled
one was asked, and was asked twice if it failed first and might recover; each round asks the nodes in
order, so none of them twice, and overtakes none that it has still to ask. -/
theorem run_in_order (network : Network ω α) (limits : Limits) (allowed : limits.allowRetries = true)
    {goal : Goal α} (fresh : goal.Fresh) (nodes : List NodeAddress) (world : ω) (now : Nat) (signal : StopSignal) :
    let r := run network limits goal nodes world now signal
    let candidates := Candidate.ofAddresses nodes
    let op := beginning network limits now
    network.KeepsFlags (op.Sees (world, signal) r.attempts) world nodes →
    (nodes.Pairwise fun a b => network.isDisabled world a = true → network.isDisabled world b = true) →
    (∀ before a, before ++ [a] <+: r.attempts → network.isDisabled world a.node.address = true →
      ∀ node ∈ candidates, network.isDisabled world node.address = false →
        outcomesOn before node ≠ [] ∧ ∀ outcome ∈ (outcomesOn before node).head?, outcome.isRetriable = true →
          2 ≤ (outcomesOn before node).length) ∧
    (r.attempts.Pairwise fun a b => a.round = b.round → a.node.position < b.node.position) ∧
    ∀ before a, before ++ [a] <+: r.attempts → ∀ node ∈ candidates, node.position < a.node.position →
      op.Queues world before node a.round → ∃ b ∈ before, b.node = node ∧ b.round = a.round := by
  intro r candidates op steady order
  have routed : op.Routed (op.Sees (world, signal) r.attempts) world nodes := ⟨allowed, steady, order⟩
  have stage : ∀ before a, before ++ [a] <+: r.attempts → ∃ s : Stage ω α,
      s.Known op (op.Sees (world, signal) r.attempts) world nodes ∧ op.Makes s a ∧ s.run.attempts = before := by
    intro before a made
    obtain ⟨s, steps, makes, same⟩ := run_made made
    exact ⟨s, steps.known fresh routed (same ▸ (List.prefix_append _ _).trans made), makes, same⟩
  refine ⟨?_, ?_, ?_⟩
  · intro before a made disabled node member enabled
    obtain ⟨s, known, makes, rfl⟩ := stage before a made
    exact known.enabled_before routed makes disabled (known.candidates ▸ member) enabled
  · refine pairwise_of_prefixes fun before a made b earlier same => ?_
    obtain ⟨s, known, makes, rfl⟩ := stage before a made
    exact known.increases makes earlier same
  · intro before a made node member earlier queued
    obtain ⟨s, known, makes, rfl⟩ := stage before a made
    exact known.none_overtaken makes (known.candidates ▸ member) earlier routed queued

def repliesBut (host : String) : Network (List (CallResult Unit)) Unit :=
  { replies with isDisabled := fun _ node => node.host == host }

/-- A disabled node is asked when the first of the others has failed twice, and waits behind it. -/
theorem disabled_node_last :
    let nodes : List NodeAddress := [⟨"a", 1⟩, ⟨"b", 1⟩, ⟨"off", 1⟩]
    let limits : Limits := ⟨100, 40, 10, 5, true, 3, 500⟩
    let lost : CallResult Unit := .failure ⟨⟨"a", 1⟩, 0, 0, .timeout⟩
    let store := [lost, .missing, lost, lost, .missing, .success ()]
    let network := repliesBut "off"
    let r := run network limits (.read none) nodes store 0 none
    network.KeepsFlags ((beginning network limits 0).Sees (store, none) r.attempts) store nodes ∧
      r.attempts.map (fun a => (a.node.position, a.round)) =
        [(0, .primary), (1, .primary), (0, .retry), (2, .disabled), (0, .extra 1), (2, .extra 1)] ∧
      (r.attempts.Pairwise fun a b => a.round = b.round → a.node.position < b.node.position) ∧
      2 ≤ (outcomesOn (r.attempts.take 3) ⟨0, ⟨"a", 1⟩⟩).length := by
  intro nodes limits lost store network r
  have steady : network.KeepsFlags ((beginning network limits 0).Sees (store, none) r.attempts) store nodes :=
    fun _ _ _ _ => rfl
  obtain ⟨last, increasing, _⟩ := run_in_order network limits rfl .read nodes store 0 none steady (by decide)
  have made : r.attempts.take 3 ++ [r.attempts.get ⟨3, by decide⟩] <+: r.attempts := by
    rw [List.get_eq_getElem, List.take_append_getElem]
    exact List.take_prefix ..
  obtain ⟨_, twice⟩ := last _ _ made (by decide) ⟨0, ⟨"a", 1⟩⟩ (by decide) (by decide)
  exact ⟨steady, by decide, increasing, twice lost (by decide) rfl⟩

end Operation
end ReplicaRing
