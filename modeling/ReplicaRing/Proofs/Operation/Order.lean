import ReplicaRing.Proofs.Operation.Exhaustion
import ReplicaRing.Proofs.Operation.Flags

/-! The order in which nodes are asked. If the enabled nodes stand before the disabled ones and stay so,
the nodes that were asked are always the first ones of the list, and those that wait to be asked again
stand in its order. -/
namespace ReplicaRing

variable {ω α : Type}

namespace Round

def rank : Round → Nat
  | primary => 0
  | retry => 1
  | disabled => 2
  | extra number => number + 3

theorem rank_injective : Function.Injective rank := by
  intro a b same
  cases a <;> cases b <;> simp_all [rank]

def Repeats : Round → Prop
  | primary | disabled => False
  | retry | extra _ => True

end Round

namespace Network

variable {network : Network ω α} {seen : ω → Prop} {world : ω} {nodes : List NodeAddress}

def KeepsFlags (network : Network ω α) (seen : ω → Prop) (world : ω) (nodes : List NodeAddress) : Prop :=
  ∀ w, seen w → ∀ node ∈ nodes, network.isDisabled w node = network.isDisabled world node

theorem KeepsFlags.keepsOrder (steady : network.KeepsFlags seen world nodes)
    (routed : nodes.Pairwise fun a b => network.isDisabled world a = true → network.isDisabled world b = true) :
    network.KeepsOrder seen nodes := by
  intro w looks
  refine routed.imp_of_mem fun {a b} first second order disabled => ?_
  rw [steady w looks a first] at disabled
  rw [steady w looks b second]
  exact order disabled

end Network

theorem Run.asked_of_outcomes {r : Run ω α} {node : Candidate} (asked : r.outcomes node ≠ []) :
    ∃ a ∈ r.attempts, a.node = node := by
  obtain ⟨outcome, member⟩ := List.exists_mem_of_ne_nil _ asked
  obtain ⟨a, made, _⟩ := List.mem_map.mp member
  exact ⟨a, (List.mem_filter.mp made).1, of_decide_eq_true (List.mem_filter.mp made).2⟩

/-- With retries, over nodes whose flags stay, the enabled ones first. -/
structure Operation.Routed (op : Operation ω α) (seen : ω → Prop) (world : ω) (nodes : List NodeAddress) :
    Prop where
  allowed : op.limits.allowRetries = true
  steady : op.network.KeepsFlags seen world nodes
  order : nodes.Pairwise fun a b =>
    op.network.isDisabled world a = true → op.network.isDisabled world b = true

/-- The nodes that were asked are the first ones, and those that wait stand in their order; in a round
that asks nodes again, those that are due stand behind all that had their turn. -/
structure Stage.InOrder (op : Operation ω α) (world : ω) (s : Stage ω α) : Prop where
  taken : ∃ taken, s.run.candidates = taken ++ s.untried ∧ (s.run.retries.map (·.node)).Sublist taken ∧
    ∀ a ∈ s.run.attempts, a.node ∈ taken
  rank : ∀ a ∈ s.run.attempts, a.round.rank ≤ s.round.rank
  enabled : ∀ a ∈ s.run.attempts, a.round.rank ≤ Round.retry.rank →
    op.network.isDisabled world a.node.address = false
  disabled : ∀ a ∈ s.run.attempts, a.round = .disabled → op.network.isDisabled world a.node.address = true
  passed : ∀ a ∈ s.run.attempts, a.round = s.round → ∀ f ∈ s.due, a.node.position < f.node.position
  turned : ∃ kept, s.run.retries = kept ++ s.due ∧
    (s.round.Repeats → ∀ f ∈ kept, ∃ a ∈ s.run.attempts, a.node = f.node ∧ a.round = s.round)
  swept : s.round = .disabled → s.skipped = []
  number : s.round ≠ .extra 0

structure Stage.Known (op : Operation ω α) (seen : ω → Prop) (world : ω) (nodes : List NodeAddress)
    (s : Stage ω α) : Prop where
  looks : seen s.run.world
  candidates : s.run.candidates = Candidate.ofAddresses nodes
  accounted : s.Accounted
  paced : s.Paced op
  final : s.Final op
  defers : s.Defers op seen
  inOrder : s.InOrder op world

namespace Stage

variable {op : Operation ω α} {seen : ω → Prop} {world : ω} {nodes : List NodeAddress} {s t : Stage ω α}

section Known

variable (h : s.Known op seen world nodes) (routed : op.Routed seen world nodes)
include h

theorem Known.sorted : s.run.candidates.Pairwise (·.position < ·.position) :=
  h.candidates ▸ Operation.ofAddresses_sorted nodes

theorem Known.behind {a : Attempt α} (made : a ∈ s.run.attempts) {node : Candidate} (untried : node ∈ s.untried) :
    a.node.position < node.position := by
  obtain ⟨taken, split, _, tried⟩ := h.inOrder.taken
  have sorted := h.sorted
  rw [split] at sorted
  exact (List.pairwise_append.mp sorted).2.2 a.node (tried a made) node untried

theorem Known.retries_sorted : s.run.retries.Pairwise (·.node.position < ·.node.position) := by
  obtain ⟨taken, split, waiting, _⟩ := h.inOrder.taken
  have sorted := h.sorted
  rw [split] at sorted
  have first := (List.pairwise_append.mp sorted).1.sublist waiting
  rwa [List.pairwise_map] at first

theorem Known.asked {f : NodeFailure} (waits : f ∈ s.run.retries) : ∃ a ∈ s.run.attempts, a.node = f.node := by
  obtain ⟨_, _, _, outcomes⟩ := h.accounted.failed (List.mem_append_right _ waits)
  exact Run.asked_of_outcomes (by simp [outcomes, NodeFailure.calls])

theorem Known.mem {node : Candidate} (untried : node ∈ s.untried) : node.address ∈ nodes := by
  rw [← ofAddresses_addresses nodes, ← h.candidates]
  exact List.mem_map_of_mem (h.defers.order.mem untried)

include routed

theorem Known.disabled_of_not_staysEnabled {node : Candidate} (untried : node ∈ s.untried)
    (once : ¬ op.network.StaysEnabled seen node.address) : op.network.isDisabled world node.address = true := by
  refine Bool.not_eq_false _ ▸ fun enabled => once fun w looks => ?_
  rw [routed.steady w looks _ (h.mem untried), enabled]

theorem Known.skipped_disabled {node : Candidate} (skipped : node ∈ s.skipped) :
    op.network.isDisabled world node.address = true :=
  h.disabled_of_not_staysEnabled routed (List.mem_append_left _ skipped) (h.defers.skipped node skipped)

theorem Known.fresh_disabled (late : s.round ≠ .primary) {node : Candidate} (fresh : node ∈ s.fresh) :
    op.network.isDisabled world node.address = true :=
  h.disabled_of_not_staysEnabled routed (List.mem_append_right _ fresh) (h.defers.fresh late node fresh)

theorem Known.enabled_of_leavesOut {node : Candidate} (untried : node ∈ s.untried)
    (asked : op.leavesOut node s.run = false) : op.network.isDisabled world node.address = false := by
  rw [Operation.leavesOut, routed.allowed, Bool.true_and] at asked
  rw [← routed.steady s.run.world h.looks _ (h.mem untried), asked]

/-- When a node is asked for the first time, none is left out before it. -/
theorem Known.none_skipped {node : Candidate} {fresh : List Candidate} (head : s.fresh = node :: fresh)
    (sweeps : s.round = .primary ∧ op.leavesOut node s.run = false ∨ s.round = .disabled) : s.skipped = [] := by
  rcases sweeps with ⟨_, asked⟩ | disabled
  · refine List.eq_nil_iff_forall_not_mem.mpr fun c skipped => ?_
    have enabled := h.enabled_of_leavesOut routed (by simp [untried, head]) asked
    have listed := (routed.steady.keepsOrder routed.order).candidates h.looks
    have order := listed.sublist (h.candidates ▸ h.defers.order)
    have behind := (List.pairwise_append.mp order).2.2 c skipped node (by simp [head])
    rw [routed.steady s.run.world h.looks _ (h.mem (List.mem_append_left _ skipped)),
      routed.steady s.run.world h.looks _ (h.mem (by simp [untried, head])), enabled] at behind
    exact absurd (behind (h.skipped_disabled routed skipped)) Bool.false_ne_true
  · exact h.inOrder.swept disabled

end Known

/-- A round that asks nodes again has some due; the others have none. -/
theorem Paced.repeats (h : s.Paced op) {f : NodeFailure} {due : List NodeFailure} (head : s.due = f :: due) :
    s.round.Repeats := by
  cases round : s.round with
  | primary => simp [h.sweeps (.inl round)] at head
  | disabled => simp [h.sweeps (.inr round)] at head
  | retry => trivial
  | extra number => trivial

/-- The flag of a node decides the rounds in which it is asked. -/
theorem Known.flag (h : s.Known op seen world nodes) (routed : op.Routed seen world nodes) {a : Attempt α}
    (makes : op.Makes s a) : (a.round.rank ≤ Round.retry.rank → op.network.isDisabled world a.node.address = false) ∧
      (a.round = .disabled → op.network.isDisabled world a.node.address = true) := by
  obtain ⟨may, asks, logged⟩ := makes
  have round : a.round = s.round := congrArg Attempt.round logged
  rw [round]
  generalize a.node = node at asks
  cases asks with
  | first head sweeps =>
    refine ⟨fun early => ?_, fun disabled => ?_⟩
    · rcases sweeps with ⟨_, asked⟩ | disabled
      · exact h.enabled_of_leavesOut routed (by simp [untried, head]) asked
      · rw [disabled] at early
        contradiction
    · exact h.fresh_disabled routed (by simp [disabled]) (by simp [head])
  | @again f kept due head retries =>
    have repeats := h.paced.repeats head
    refine ⟨fun early => ?_, fun disabled => by simp [disabled, Round.Repeats] at repeats⟩
    obtain ⟨b, made, named⟩ := h.asked (f := f) (by simp [retries])
    exact named ▸ h.inOrder.enabled b made (Nat.le_trans (h.inOrder.rank b made) early)

/-- What an attempt adds to the order, once it is known where the node stood. -/
theorem Known.of_attempt (h : s.Known op seen world nodes) (routed : op.Routed seen world nodes) {a : Attempt α}
    (makes : op.Makes s a) (same : t.round = s.round) (skipped : t.skipped = s.skipped)
    (attempts : t.run.attempts = s.run.attempts ++ [a])
    (taken : ∃ taken, t.run.candidates = taken ++ t.untried ∧ (t.run.retries.map (·.node)).Sublist taken ∧
      a.node ∈ taken ∧ ∀ b ∈ s.run.attempts, b.node ∈ taken)
    (passed : ∀ b, b = a ∨ b ∈ s.run.attempts ∧ b.round = s.round → ∀ f ∈ t.due,
      b.node.position < f.node.position)
    (turned : ∃ kept, t.run.retries = kept ++ t.due ∧
      (t.round.Repeats → ∀ f ∈ kept, ∃ b ∈ t.run.attempts, b.node = f.node ∧ b.round = t.round)) :
    t.InOrder op world := by
  have cases : ∀ b, b ∈ t.run.attempts ↔ b ∈ s.run.attempts ∨ b = a := by simp [attempts]
  obtain ⟨enabled, disabled⟩ := h.flag routed makes
  obtain ⟨first, split, waiting, last, tried⟩ := taken
  refine ⟨⟨first, split, waiting, fun b made => ?_⟩, fun b made => ?_, fun b made early => ?_,
    fun b made round => ?_, fun b made round => passed b ?_, turned, fun round => ?_, same ▸ h.inOrder.number⟩
  · rcases (cases b).mp made with before | rfl
    · exact tried b before
    · exact last
  · rw [same]
    rcases (cases b).mp made with before | rfl
    · exact h.inOrder.rank b before
    · exact Nat.le_of_eq (congrArg Round.rank makes.round)
  · rcases (cases b).mp made with before | rfl
    · exact h.inOrder.enabled b before early
    · exact enabled early
  · rcases (cases b).mp made with before | rfl
    · exact h.inOrder.disabled b before round
    · exact disabled round
  · rcases (cases b).mp made with before | rfl
    · exact .inr ⟨before, same ▸ round⟩
    · exact .inl rfl
  · exact skipped.trans (h.inOrder.swept (same ▸ round))

/-- The first attempt on a node, which is the first of those that were not tried. -/
theorem Known.first {round : Round} {skipped fresh : List Candidate} {node : Candidate} {due : List NodeFailure}
    {r : Run ω α} (h : Stage.Known op seen world nodes ⟨round, skipped, node :: fresh, due, r⟩)
    (routed : op.Routed seen world nodes) (may : op.mayAttempt round r = true)
    (sweeps : round = .primary ∧ op.leavesOut node r = false ∨ round = .disabled) :
    Stage.InOrder op world ⟨round, skipped, fresh, due,
      op.file node (op.attempt round node r).1 (op.attempt round node r).2⟩ := by
  have makes : op.Makes ⟨round, skipped, node :: fresh, due, r⟩ (op.logged round node r) :=
    ⟨may, .first rfl sweeps, rfl⟩
  obtain rfl : skipped = [] := h.none_skipped routed rfl sweeps
  obtain rfl : due = [] := h.paced.sweeps (sweeps.imp_left And.left)
  obtain ⟨taken, split, waiting, tried⟩ := h.inOrder.taken
  refine h.of_attempt routed makes rfl rfl (by simp) ⟨taken ++ [node], ?_, ?_, ?_, ?_⟩ ?_
    ⟨_, (List.append_nil _).symm, ?_⟩
  · simpa [untried] using split
  · rcases op.retries_file node (op.attempt round node r).2 (op.attempt round node r).1
      with same | ⟨f, named, grown⟩
    · simpa [same] using waiting.trans (List.sublist_append_left taken [node])
    · simpa [grown, named] using waiting.append_right [node]
  · simp [Operation.logged]
  · exact fun b made => List.mem_append_left _ (tried b made)
  · exact fun _ _ _ none => absurd none List.not_mem_nil
  · rcases sweeps with ⟨rfl, _⟩ | rfl <;> exact False.elim

/-- Another attempt on the next of the nodes that are due. -/
theorem Known.again {round : Round} {skipped fresh : List Candidate} {kept due : List NodeFailure}
    {f : NodeFailure} {r : Run ω α} (h : Stage.Known op seen world nodes ⟨round, skipped, fresh, f :: due, r⟩)
    (routed : op.Routed seen world nodes) (may : op.mayAttempt round r = true)
    (retries : r.retries = kept ++ f :: due) : Stage.InOrder op world ⟨round, skipped, fresh, due,
      (Operation.refile kept f due (op.attempt round f.node r).1 (op.attempt round f.node r).2).2⟩ := by
  have makes : op.Makes ⟨round, skipped, fresh, f :: due, r⟩ (op.logged round f.node r) :=
    ⟨may, .again rfl retries, rfl⟩
  obtain ⟨taken, split, waiting, tried⟩ := h.inOrder.taken
  obtain ⟨had, places, turned⟩ := h.inOrder.turned
  obtain rfl : had = kept := List.append_cancel_right (places.symm.trans retries)
  have sorted := h.retries_sorted
  have known : f.node ∈ taken := waiting.mem (List.mem_map_of_mem (by simp [retries]))
  rw [retries, List.pairwise_append, List.pairwise_cons] at sorted
  have grown := Operation.kept_refile had due f (op.attempt round f.node r).2 (op.attempt round f.node r).1
  have stays := Operation.refile_retries (op.attempt round f.node r).2 had due f (op.attempt round f.node r).1
  refine h.of_attempt routed makes rfl rfl (by simp) ⟨taken, ?_, ?_, known, tried⟩ ?_ ⟨_, stays, ?_⟩
  · simpa [untried] using split
  · rw [retries] at waiting
    refine List.Sublist.trans ?_ waiting
    rcases grown with same | ⟨g, named, more⟩
    · simp [stays, same]
    · simp [stays, more, named]
  · rintro b (rfl | ⟨made, same⟩) g member
    · exact sorted.2.1.1 g member
    · exact h.inOrder.passed b made same g (List.mem_cons_of_mem f member)
  · intro repeats g member
    have earlier : ∀ g ∈ had, ∃ b ∈ r.attempts ++ [op.logged round f.node r], b.node = g.node ∧ b.round = round := by
      intro g member
      obtain ⟨b, made, named⟩ := turned repeats g member
      exact ⟨b, List.mem_append_left _ made, named⟩
    rw [Operation.attempts_refile, Operation.attempts_attempt]
    rcases grown with same | ⟨last, named, more⟩
    · exact earlier g (same ▸ member)
    · rw [more, List.mem_append, List.mem_singleton] at member
      rcases member with before | rfl
      · exact earlier g before
      · exact ⟨op.logged round f.node r, by simp, named.symm, rfl⟩

/-- A round in which all nodes that wait are due. -/
theorem Known.entered {round : Round} (h : s.Known op seen world nodes) (later : s.round.rank < round.rank)
    (repeats : round ≠ .disabled) (number : round ≠ .extra 0) :
    Stage.InOrder op world ⟨round, s.skipped, s.fresh, s.run.retries, s.run⟩ := by
  refine ⟨h.inOrder.taken, fun a made => ?_, h.inOrder.enabled, h.inOrder.disabled, fun a made same => ?_,
    ⟨[], rfl, fun _ _ member => absurd member List.not_mem_nil⟩, fun disabled => absurd disabled repeats, number⟩
  · exact Nat.le_of_lt (Nat.lt_of_le_of_lt (h.inOrder.rank a made) later)
  · have early := h.inOrder.rank a made
    rw [same] at early
    exact absurd later (Nat.not_lt.mpr early)

end Stage

namespace Operation

variable {op : Operation ω α} {seen : ω → Prop} {world : ω} {nodes : List NodeAddress} {s t : Stage ω α}

theorem Step.inOrder (step : op.Step s t) (routed : op.Routed seen world nodes) (h : s.Known op seen world nodes) :
    t.InOrder op world := by
  cases step with
  | leave | leaveAll =>
    refine ⟨?_, h.inOrder.rank, h.inOrder.enabled, h.inOrder.disabled, h.inOrder.passed, h.inOrder.turned,
      fun swept => Round.noConfusion swept, h.inOrder.number⟩
    simpa [Stage.untried] using h.inOrder.taken
  | first may sweeps => exact h.first routed may sweeps
  | again may retries => exact h.again routed may retries
  | pause may roundStart =>
    refine ⟨?_, ?_, ?_, ?_, ?_, ?_, h.inOrder.swept, h.inOrder.number⟩
    · simpa [Stage.untried] using h.inOrder.taken
    · simpa using h.inOrder.rank
    · simpa using h.inOrder.enabled
    · simpa using h.inOrder.disabled
    · simpa using h.inOrder.passed
    · simpa using h.inOrder.turned
  | retry => exact h.entered Nat.zero_lt_one (fun same => Round.noConfusion same) fun same => Round.noConfusion same
  | @disabled skipped r =>
    refine ⟨?_, fun a made => ?_, h.inOrder.enabled, h.inOrder.disabled,
      fun _ _ _ _ member => absurd member List.not_mem_nil, ⟨_, (List.append_nil _).symm, False.elim⟩,
      fun _ => rfl, fun same => Round.noConfusion same⟩
    · simpa [Stage.untried] using h.inOrder.taken
    · exact Nat.le_trans (h.inOrder.rank a made) (Nat.le_succ 1)
  | @extra round r late left =>
    refine h.entered ?_ (fun same => Round.noConfusion same) ?_
    · rcases late with rfl | ⟨number, rfl⟩
      · exact Nat.lt_of_sub_pos Nat.two_pos
      · exact Nat.lt_succ_self _
    · rcases late with rfl | ⟨number, rfl⟩ <;> simp [Round.turn]

/-- All of this holds at each stage that comes with the first of the attempts. -/
theorem Steps.known {goal : Goal α} (fresh : goal.Fresh) {now : Nat} {signal : StopSignal}
    {attempts : List (Attempt α)} (routed : op.Routed (op.Sees (world, signal) attempts) world nodes)
    (steps : op.Steps (.start (.start (Candidate.ofAddresses nodes) goal world now signal)) s)
    (made : s.run.attempts <+: attempts) : s.Known op (op.Sees (world, signal) attempts) world nodes := by
  have rest : ∀ t, op.Steps (.start (.start (Candidate.ofAddresses nodes) goal world now signal)) t →
      t.run.attempts <+: attempts → t.InOrder op world →
      t.Known op (op.Sees (world, signal) attempts) world nodes := by
    intro t steps made inOrder
    obtain ⟨accounted, paced, candidates, _⟩ := reached_stage fresh steps
    have final := steps.keeps (·.Final _) (fun _ _ => Step.final) (fun _ _ none => nomatch none)
    exact ⟨steps.sees rfl made, candidates, accounted, paced, final,
      steps.defers made (routed.steady.keepsOrder routed.order), inOrder⟩
  induction steps with
  | refl =>
    have none (a : Attempt α) : a ∉ ([] : List (Attempt α)) := List.not_mem_nil
    exact rest _ .refl made
      ⟨⟨[], rfl, .slnil, fun a made => absurd made (none a)⟩, fun a made => absurd made (none a),
        fun a made => absurd made (none a), fun a made => absurd made (none a), fun a made => absurd made (none a),
        ⟨[], rfl, False.elim⟩, fun swept => Round.noConfusion swept, fun same => Round.noConfusion same⟩
  | tail steps step ih =>
    exact rest _ (.tail steps step) made (step.inOrder routed (ih (step.attempts_prefix.trans made)))

end Operation
end ReplicaRing
