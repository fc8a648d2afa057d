import ReplicaRing.Proofs.Operation.Filing

/-! How often a node is asked. A node that may be asked again is asked once in every turn from its first
one on, so the turns of an operation bound the attempts on each node. -/
namespace ReplicaRing

variable {ω α : Type}

namespace Run

def turns (r : Run ω α) (node : Candidate) : List Nat := (r.rounds node).map Round.turn

/-- The node was asked in every turn from its first one up to the one before `next`. -/
def AskedUntil (r : Run ω α) (node : Candidate) (next : Nat) : Prop :=
  ∃ first < next, r.turns node = List.range' first (next - first)

end Run

/-- How far each node is. Of the failed nodes, those due have still to be asked in the present turn. -/
structure Stage.Paced (op : Operation ω α) (s : Stage ω α) : Prop where
  turn_le : s.round.turn ≤ op.limits.maxRetryRounds + 1
  single : op.limits.allowRetries = false → s.round = .primary
  sweeps : s.round = .primary ∨ s.round = .disabled → s.due = []
  began : ∀ node, ∀ round ∈ (s.run.rounds node).head?, round = .primary ∨ round = .disabled
  asked : ∀ node, s.run.rounds node = [] ∨ ∃ next ≤ s.round.turn + 1, s.run.AskedUntil node next
  waiting : ∃ kept, s.run.retries = kept ++ s.due ∧
    (∀ f ∈ kept, s.run.AskedUntil f.node (s.round.turn + 1)) ∧
    ∀ f ∈ s.due, s.run.AskedUntil f.node s.round.turn

namespace Operation

variable {op : Operation ω α} {round : Round} {r after : Run ω α} {node other : Candidate}

theorem rounds_attempt_same (attemptsOn : after.attemptsOn = (op.attempt round node r).2.attemptsOn) :
    after.rounds node = r.rounds node ++ [round] := by
  simp [Run.rounds, attemptsOn, op.attemptsOn_attempt_same, logged]

theorem rounds_attempt_other (attemptsOn : after.attemptsOn = (op.attempt round node r).2.attemptsOn)
    (apart : node ≠ other) : after.rounds other = r.rounds other := by
  simp [Run.rounds, attemptsOn, op.attemptsOn_attempt_other round r apart]

theorem askedUntil_other (attemptsOn : after.attemptsOn = (op.attempt round node r).2.attemptsOn)
    (apart : node ≠ other) {next : Nat} (asked : r.AskedUntil other next) :
    after.AskedUntil other next := by
  simpa only [Run.AskedUntil, Run.turns, rounds_attempt_other attemptsOn apart] using asked

theorem askedUntil_first (attemptsOn : after.attemptsOn = (op.attempt round node r).2.attemptsOn)
    (none : r.rounds node = []) : after.AskedUntil node (round.turn + 1) := by
  refine ⟨round.turn, Nat.lt_succ_self _, ?_⟩
  simp [Run.turns, rounds_attempt_same attemptsOn, none]

theorem askedUntil_again (attemptsOn : after.attemptsOn = (op.attempt round node r).2.attemptsOn)
    (due : r.AskedUntil node round.turn) : after.AskedUntil node (round.turn + 1) := by
  obtain ⟨first, before, turns⟩ := due
  have extended : after.turns node = r.turns node ++ [round.turn] := by
    simp [Run.turns, rounds_attempt_same attemptsOn]
  refine ⟨first, by omega, ?_⟩
  rw [extended, turns, Nat.succ_sub (Nat.le_of_lt before), List.range'_concat, Nat.one_mul,
    Nat.add_sub_cancel' (Nat.le_of_lt before)]

theorem rounds_ne_nil {next : Nat} (asked : r.AskedUntil node next) : r.rounds node ≠ [] := by
  obtain ⟨first, before, turns⟩ := asked
  intro none
  have length := congrArg List.length turns
  simp only [Run.turns, none, List.map_nil, List.length_nil, List.length_range'] at length
  omega

/-- Filing a first result puts the node behind those that failed before, or changes none of them. -/
theorem retries_file (op : Operation ω α) (node : Candidate) (r : Run ω α) (result : CallResult α) :
    (op.file node result r).retries = r.retries ∨
      ∃ f, f.node = node ∧ (op.file node result r).retries = r.retries ++ [f] := by
  cases result with
  | success value => exact .inl rfl
  | missing => exact .inl rfl
  | failure c =>
    simp only [file]
    split
    · exact .inr ⟨.ofCall node c, rfl, rfl⟩
    · exact .inl rfl

/-- Filing a further result keeps the node behind those that had their turn, or takes it out. -/
theorem kept_refile (kept due : List NodeFailure) (f : NodeFailure) (r : Run ω α) (result : CallResult α) :
    (refile kept f due result r).1 = kept ∨
      ∃ g, g.node = f.node ∧ (refile kept f due result r).1 = kept ++ [g] := by
  cases result with
  | success value => exact .inl rfl
  | missing => exact .inl rfl
  | failure c =>
    simp only [refile]
    split
    · exact .inr ⟨f.add c, rfl, rfl⟩
    · exact .inl rfl

end Operation

namespace Stage.Paced

variable {op : Operation ω α} {s t : Stage ω α}

theorem all_asked (h : s.Paced op) (none : s.due = []) :
    ∀ f ∈ s.run.retries, s.run.AskedUntil f.node (s.round.turn + 1) := by
  obtain ⟨kept, retries, asked, _⟩ := h.waiting
  rw [none, List.append_nil] at retries
  exact retries ▸ asked

/-- What an attempt on a node leaves of the rounds of all nodes, once the node is asked in its turn. -/
theorem of_attempt (h : s.Paced op) (node : Candidate) (same : t.round = s.round)
    (attemptsOn : t.run.attemptsOn = (op.attempt s.round node s.run).2.attemptsOn)
    (due : s.due = [] → t.due = [])
    (first : s.run.rounds node = [] → s.round = .primary ∨ s.round = .disabled)
    (asked : t.run.AskedUntil node (s.round.turn + 1))
    (waiting : ∃ kept, t.run.retries = kept ++ t.due ∧
      (∀ f ∈ kept, t.run.AskedUntil f.node (t.round.turn + 1)) ∧
      ∀ f ∈ t.due, t.run.AskedUntil f.node t.round.turn) : t.Paced op := by
  refine ⟨same ▸ h.turn_le, same ▸ h.single, fun sweep => due (h.sweeps (same ▸ sweep)), ?_, ?_, waiting⟩
  · intro other
    by_cases apart : node = other
    · subst apart
      rw [Operation.rounds_attempt_same attemptsOn]
      cases begun : s.run.rounds node with
      | nil =>
        intro round member
        rw [List.nil_append, List.head?_cons, Option.mem_some_iff] at member
        exact member ▸ first begun
      | cons earliest rest =>
        have began := h.began node
        rw [begun] at began
        exact began
    · rw [Operation.rounds_attempt_other attemptsOn apart]
      exact h.began other
  · intro other
    by_cases apart : node = other
    · exact .inr ⟨_, Nat.le_of_eq (same ▸ rfl), apart ▸ asked⟩
    · rw [Operation.rounds_attempt_other attemptsOn apart, same]
      exact (h.asked other).imp_right fun ⟨next, le, until_⟩ =>
        ⟨next, le, Operation.askedUntil_other attemptsOn apart until_⟩

/-- A round in which all failed nodes are asked once more. -/
theorem entered {round : Round} {skipped fresh : List Candidate} (h : s.Paced op) (none : s.due = [])
    (turn : round.turn = s.round.turn + 1) (budget : round.turn ≤ op.limits.maxRetryRounds + 1)
    (repeats : round ≠ .primary ∧ round ≠ .disabled) (allowed : op.limits.allowRetries = true) :
    Stage.Paced op ⟨round, skipped, fresh, s.run.retries, s.run⟩ := by
  refine ⟨budget, ?_, ?_, h.began, ?_, [], rfl, nofun, ?_⟩
  · intro single
    rw [allowed] at single
    contradiction
  · intro sweep
    rcases sweep with primary | disabled
    · exact absurd primary repeats.1
    · exact absurd disabled repeats.2
  · intro node
    rcases h.asked node with none | ⟨next, le, asked⟩
    · exact .inl none
    · exact .inr ⟨next, show next ≤ round.turn + 1 by omega, asked⟩
  · rw [turn]
    exact h.all_asked none

/-- The first attempt on a node. Whatever failed before had its turn already. -/
theorem first {round : Round} {skipped fresh : List Candidate} {node : Candidate} {r : Run ω α}
    (h : Stage.Paced op ⟨round, skipped, node :: fresh, [], r⟩) (sweep : round = .primary ∨ round = .disabled)
    (unseen : r.rounds node = []) :
    Stage.Paced op ⟨round, skipped, fresh, [], op.file node (op.attempt round node r).1 (op.attempt round node r).2⟩ := by
  have attemptsOn : (op.file node (op.attempt round node r).1 (op.attempt round node r).2).attemptsOn =
      (op.attempt round node r).2.attemptsOn := op.attemptsOn_file ..
  have asked := Operation.askedUntil_first attemptsOn unseen
  have earlier : ∀ f ∈ r.retries, (op.file node (op.attempt round node r).1
      (op.attempt round node r).2).AskedUntil f.node (round.turn + 1) := by
    intro f member
    have waits := h.all_asked rfl f member
    refine Operation.askedUntil_other attemptsOn (fun same => ?_) waits
    exact Operation.rounds_ne_nil waits (same ▸ unseen)
  refine h.of_attempt node rfl attemptsOn (fun _ => rfl) (fun _ => sweep) asked
    ⟨_, (List.append_nil _).symm, ?_, by simp⟩
  intro f member
  rcases op.retries_file node (op.attempt round node r).2 (op.attempt round node r).1
    with same | ⟨g, named, grown⟩
  · exact earlier f (by simpa [same] using member)
  · rw [grown, Operation.attempt_retries, List.mem_append, List.mem_singleton] at member
    rcases member with before | rfl
    · exact earlier f before
    · exact named ▸ asked

/-- Another attempt on the next of the nodes that are due. No other failed node is the same one, so the
turns of all others stay. -/
theorem again {round : Round} {skipped fresh : List Candidate} {kept due : List NodeFailure} {f : NodeFailure}
    {r : Run ω α} (h : Stage.Paced op ⟨round, skipped, fresh, f :: due, r⟩)
    (retries : r.retries = kept ++ f :: due) (failures : r.result.failuresOf f.node = [f]) :
    Stage.Paced op ⟨round, skipped, fresh, due,
      (Operation.refile kept f due (op.attempt round f.node r).1 (op.attempt round f.node r).2).2⟩ := by
  have attemptsOn : (Operation.refile kept f due (op.attempt round f.node r).1
      (op.attempt round f.node r).2).2.attemptsOn = (op.attempt round f.node r).2.attemptsOn :=
    Operation.attemptsOn_refile ..
  obtain ⟨had, split, turned, waits⟩ := h.waiting
  obtain rfl : had = kept := List.append_cancel_right (split.symm.trans retries)
  have asked := Operation.askedUntil_again attemptsOn (waits f (by simp))
  obtain ⟨_, before, behind⟩ := Operation.alone retries failures
  have others : ∀ g next, g ∈ had ∨ g ∈ due → r.AskedUntil g.node next →
      (Operation.refile had f due (op.attempt round f.node r).1
        (op.attempt round f.node r).2).2.AskedUntil g.node next := by
    intro g next member
    refine Operation.askedUntil_other attemptsOn fun same => ?_
    rcases member with member | member
    · exact List.filter_eq_nil_iff.mp before g member (decide_eq_true same.symm)
    · exact List.filter_eq_nil_iff.mp behind g member (decide_eq_true same.symm)
  refine h.of_attempt f.node rfl attemptsOn nofun
    (fun none => absurd none (Operation.rounds_ne_nil (waits f (by simp)))) asked
    ⟨_, Operation.refile_retries .., ?_, fun g member => others g _ (.inr member) (waits g (by simp [member]))⟩
  intro g member
  rcases Operation.kept_refile had due f (op.attempt round f.node r).2 (op.attempt round f.node r).1
    with same | ⟨new, named, grown⟩
  · rw [same] at member
    exact others g _ (.inl member) (turned g member)
  · rw [grown, List.mem_append, List.mem_singleton] at member
    rcases member with earlier | rfl
    · exact others g _ (.inl earlier) (turned g earlier)
    · exact named ▸ asked

end Stage.Paced

namespace Operation

variable {op : Operation ω α} {s t : Stage ω α}

theorem Step.paced (step : op.Step s t) (accounted : s.Accounted) (h : s.Paced op) : t.Paced op := by
  cases step with
  | leave | leaveAll =>
    exact ⟨h.turn_le, h.single, h.sweeps, h.began, h.asked, h.waiting⟩
  | pause may roundStart =>
    refine ⟨h.turn_le, h.single, h.sweeps, ?_, ?_, ?_⟩
    · simpa [Run.rounds] using h.began
    · simpa [Run.rounds, Run.AskedUntil, Run.turns] using h.asked
    · simpa [Run.rounds, Run.AskedUntil, Run.turns] using h.waiting
  | retry allowed => exact h.entered rfl rfl (by simp [Round.turn]) (by simp) allowed
  | disabled =>
    refine ⟨h.turn_le, ?_, fun _ => rfl, h.began, h.asked, h.waiting⟩
    intro single
    cases h.single single
  | @extra round r late left =>
    have allowed : op.limits.allowRetries = true := by
      refine Bool.not_eq_false _ ▸ fun single => ?_
      have primary := h.single single
      rcases late with rfl | ⟨number, rfl⟩ <;> cases primary
    exact h.entered rfl rfl (Nat.succ_le_succ left) (by simp) allowed
  | @first round skipped fresh node due r may sweeps =>
    have sweep : round = .primary ∨ round = .disabled := sweeps.imp_left And.left
    obtain rfl : due = [] := h.sweeps sweep
    have unasked : r.outcomes node = [] := accounted.untried node (by simp [Stage.untried])
    exact h.first sweep (by simpa [Run.outcomes, Run.rounds] using unasked)
  | @again round skipped fresh f due r kept may retries =>
    have waits : f ∈ r.retries := by simp [retries]
    obtain ⟨_, _, failures, _⟩ := accounted.failed (List.mem_append_right _ waits)
    exact h.again retries failures

theorem paced_start {candidates : List Candidate} {goal : Goal α} {world : ω} {now : Nat}
    {signal : StopSignal} :
    (Stage.start (Run.start candidates goal world now signal)).Paced op where
  turn_le := Nat.zero_le _
  single _ := rfl
  sweeps _ := rfl
  began _ _ none := nomatch none
  asked _ := .inl rfl
  waiting := ⟨[], rfl, nofun, nofun⟩

theorem ofAddresses_sorted (nodes : List NodeAddress) :
    (Candidate.ofAddresses nodes).Pairwise (·.position < ·.position) := by
  have positions : (Candidate.ofAddresses nodes).map Candidate.position = List.range' 0 nodes.length := by
    simp only [Candidate.ofAddresses, List.map_map]
    exact List.zipIdx_map_snd 0 nodes
  have increasing : ((Candidate.ofAddresses nodes).map Candidate.position).Pairwise (· < ·) :=
    positions ▸ List.pairwise_lt_range'
  exact List.pairwise_map.mp increasing

theorem ofAddresses_nodup (nodes : List NodeAddress) : (Candidate.ofAddresses nodes).Nodup :=
  (ofAddresses_sorted nodes).imp fun before same => Nat.ne_of_lt before (congrArg Candidate.position same)

/-- At every stage of a run that records anew, all nodes are accounted for and asked in their turns. -/
theorem reached_stage {goal : Goal α} (fresh : goal.Fresh) {nodes : List NodeAddress} {world : ω} {now : Nat}
    {signal : StopSignal} (steps : op.Steps (.start (.start (Candidate.ofAddresses nodes) goal world now signal)) s) :
    s.Accounted ∧ s.Paced op ∧ s.run.candidates = Candidate.ofAddresses nodes ∧ s.run.goal.afresh = goal := by
  obtain ⟨accounted, paced⟩ := steps.keeps (fun s => s.Accounted ∧ s.Paced _)
    (fun _ _ step holds => ⟨step.accounted holds.1, step.paced holds.1 holds.2⟩)
    ⟨accounted_start fresh (ofAddresses_nodup nodes), paced_start⟩
  have candidates := steps.keeps (fun s => s.run.candidates = Candidate.ofAddresses nodes)
    (fun _ _ step same => step.candidates.trans same) rfl
  have kind := steps.keeps (fun s => s.run.goal.afresh = goal) (fun _ _ step same => step.afresh.trans same)
    fresh.afresh
  exact ⟨accounted, paced, candidates, kind⟩

/-- A run that records anew ends at a stage where all nodes are accounted for, and for a cause if there
were nodes enough to begin with. -/
theorem run_stage (network : Network ω α) (limits : Limits) {goal : Goal α} (fresh : goal.Fresh)
    (nodes : List NodeAddress) (world : ω) (now : Nat) (signal : StopSignal) :
    ∃ e : Stage ω α, e.Accounted ∧ e.Paced (beginning network limits now) ∧
      e.run.candidates = Candidate.ofAddresses nodes ∧ e.run.goal.afresh = goal ∧
      (nodes ≠ [] → goal.minCandidates ≤ nodes.length → (beginning network limits now).Ended e) ∧
      e.run = run network limits goal nodes world now signal := by
  obtain ⟨e, steps, ended, ends⟩ := run_steps network limits goal nodes world now signal
  obtain ⟨accounted, paced, candidates, kind⟩ := reached_stage fresh steps
  exact ⟨e, accounted, paced, candidates, kind, ended, ends⟩

theorem outcomes_length {r : Run ω α} {node : Candidate} {first : Round} {next : Nat} (asked : r.AskedUntil node next)
    (began : (r.rounds node).head? = some first) : (r.outcomes node).length = next - first.turn := by
  obtain ⟨turn, before, turns⟩ := asked
  have length : (r.outcomes node).length = (r.turns node).length := by
    simp [Run.outcomes, Run.turns, Run.rounds]
  have head : (r.turns node).head? = some first.turn := by simp [Run.turns, began]
  rw [turns, List.head?_range', if_neg (by omega), Option.some.injEq] at head
  rw [length, turns, List.length_range', head]

/-- A node is asked at most once in a turn, and for the first time in the primary or disabled round. -/
theorem outcomes_bounded (paced : s.Paced op) (node : Candidate) : s.run.outcomes node = [] ∨
    ∃ first, (first = .primary ∨ first = .disabled) ∧ (s.run.rounds node).head? = some first ∧
      (s.run.outcomes node).length ≤ s.round.turn + 1 - first.turn := by
  rcases paced.asked node with none | ⟨next, le, asked⟩
  · exact .inl (by simpa [Run.rounds, Run.outcomes] using none)
  · obtain ⟨first, rest, rounds⟩ := List.exists_cons_of_ne_nil (rounds_ne_nil asked)
    have began : (s.run.rounds node).head? = some first := by rw [rounds, List.head?_cons]
    have length := outcomes_length asked began
    exact .inr ⟨first, paced.began node first began, began, by omega⟩

/-- Attempt accounting. All outcomes of a node but the last may pass; a node is asked once without
retries, and else in the turn of its first attempt and in those that follow; and the result files it by
its outcomes, and nowhere else. -/
theorem run_accounts (network : Network ω α) (limits : Limits) {goal : Goal α} (fresh : goal.Fresh)
    (nodes : List NodeAddress) (world : ω) (now : Nat) (signal : StopSignal) (node : Candidate) :
    let r := run network limits goal nodes world now signal
    let outcomes := r.outcomes node
    (∀ outcome ∈ outcomes.dropLast, outcome.isRetriable = true) ∧
    (limits.allowRetries = false → outcomes.length ≤ 1) ∧
    (outcomes = [] ∨
      (r.rounds node).head? = some .primary ∧ outcomes.length ≤ 2 + limits.maxRetryRounds ∨
      (r.rounds node).head? = some .disabled ∧ outcomes.length ≤ 1 + limits.maxRetryRounds) ∧
    r.result.Files node outcomes ∧
    (outcomes ≠ [] → node ∈ Candidate.ofAddresses nodes) := by
  obtain ⟨e, accounted, paced, candidates, _, _, ends⟩ := run_stage network limits fresh nodes world now signal
  rw [← ends, ← candidates]
  have turn_le : e.round.turn ≤ limits.maxRetryRounds + 1 := paced.turn_le
  have bounded := outcomes_bounded paced node
  refine ⟨accounted.retriable node, ?_, ?_, accounted.files node, ?_⟩
  · intro single
    have primary : e.round = .primary := paced.single single
    rcases bounded with none | ⟨first, _, _, length⟩
    · simp [none]
    · rw [primary] at length
      exact Nat.le_trans length (Nat.sub_le _ _)
  · rcases bounded with none | ⟨first, rfl | rfl, began, length⟩
    · exact .inl none
    · exact .inr (.inl ⟨began, Nat.le_trans length (show e.round.turn + 1 - 0 ≤ _ by omega)⟩)
    · exact .inr (.inr ⟨began, Nat.le_trans length (show e.round.turn + 1 - 1 ≤ _ by omega)⟩)
  · exact fun asked => (accounted.covers node).mpr (.inr asked)

def replies : Network (List (CallResult Unit)) Unit where
  timers := .prompt
  isDisabled _ _ := false
  call
    | [], _ => ⟨[], 0, [], false, none⟩
    | reply :: rest, _ => ⟨rest, 0, rest, false, some reply⟩

/-- A delete finds the first node without the content when it asks it again after a failure. -/
theorem replies_accounts :
    let node : Candidate := ⟨0, ⟨"a", 1⟩⟩
    let lost : CallFailure := ⟨node.address, 0, 0, .timeout⟩
    let r := run replies ⟨100, 40, 10, 5, true, 3, 500⟩ (.delete ⟨1, 2, 2⟩ []) [⟨"a", 1⟩, ⟨"b", 1⟩]
      [.failure lost, .success (), .missing] 0 none
    Goal.Fresh (α := Unit) (.delete ⟨1, 2, 2⟩ []) ∧ r.outcomes node = [.failure lost, .missing] ∧
      r.result.Files node [.failure lost, .missing] := by
  intro node lost r
  have outcomes : r.outcomes node = [.failure lost, .missing] := by decide
  obtain ⟨_, _, _, files, _⟩ := run_accounts replies ⟨100, 40, 10, 5, true, 3, 500⟩
    (.delete ⟨1, 2, 2⟩) [⟨"a", 1⟩, ⟨"b", 1⟩] [.failure lost, .success (), .missing] 0 none node
  exact ⟨.delete _, outcomes, outcomes ▸ files⟩

end Operation
end ReplicaRing
