import ReplicaRing.Client.Summary
import ReplicaRing.Proofs.Operation.Turns
import ReplicaRing.Proofs.Routing.Replay

/-! When reads report that there is no content. They do if all nodes said so, and also if a stop or the
deadline left some of the nodes unasked before any of the others failed or had the content. -/
namespace ReplicaRing

variable {ω α : Type}

namespace Run

def AllMissing (r : Run ω α) : Prop :=
  r.candidates ≠ [] ∧ ∀ node ∈ r.candidates, CallResult.missing ∈ r.outcomes node

/-- Some node was not asked, and every other one said that it does not have the content. -/
def CutShort (r : Run ω α) : Prop :=
  (∃ node ∈ r.candidates, r.outcomes node = []) ∧
    ∀ node ∈ r.candidates, r.outcomes node = [] ∨ CallResult.missing ∈ r.outcomes node

theorem allMissing_or_cutShort_iff {r : Run ω α} : r.AllMissing ∨ r.CutShort ↔ r.candidates ≠ [] ∧
    ∀ node ∈ r.candidates, r.outcomes node = [] ∨ CallResult.missing ∈ r.outcomes node := by
  constructor
  · rintro (⟨some, missing⟩ | ⟨⟨node, member, _⟩, missing⟩)
    · exact ⟨some, fun node member => .inr (missing node member)⟩
    · exact ⟨List.ne_nil_of_mem member, missing⟩
  · rintro ⟨some, missing⟩
    by_cases asked : ∃ node ∈ r.candidates, r.outcomes node = []
    · exact .inr ⟨asked, missing⟩
    · refine .inl ⟨some, fun node member => ?_⟩
      exact (missing node member).resolve_left fun none => asked ⟨node, member, none⟩

theorem CutShort.not_allMissing {r : Run ω α} (short : r.CutShort) : ¬ r.AllMissing := by
  rintro ⟨_, missing⟩
  obtain ⟨⟨node, member, none⟩, _⟩ := short
  simpa [none] using missing node member

end Run

/-- What a read that began at `now` reports after its run. The second condition is that of the first
being just `AllMissing`. -/
structure Absence (limits : Limits) (now : Nat) (r : Run ω α) (reported : Except OperationError (Option α)) :
    Prop where
  absent : reported = .ok none ↔ r.AllMissing ∨ r.CutShort
  exact : (reported = .ok none ↔ r.AllMissing) ↔ ¬ r.CutShort
  cause : r.CutShort → r.isStopped = true ∨ now + limits.operationTimeout ≤ r.now + limits.minimumTimeout

section Reading

/-- A read reports nothing if it has candidates, none of them failed and none had a value. -/
theorem OperationResult.summarize_none_iff {result : OperationResult α} {verb : Verb} {key : String}
    {found : Option (Found α)} (reads : result.goal = .read found) :
    result.summarize verb key = .ok none ↔ result.candidates ≠ 0 ∧ result.failures = [] ∧ found = none := by
  unfold summarize
  split
  · rename_i none
    simp [none]
  · rename_i some
    cases failures : result.failures with
    | nil => simp [some, reads, Goal.found?]
    | cons first rest => cases found <;> simp [some, reads, succeeded, Goal.succeeded, Goal.found?]

end Reading

namespace Stage.Accounted

variable {s : Stage ω α} {node : Candidate} {found : Option (Found α)}

theorem last_of_missing (h : s.Accounted) (missing : CallResult.missing ∈ s.run.outcomes node) :
    (s.run.outcomes node).getLast? = some .missing := by
  have asked := List.ne_nil_of_mem missing
  rw [← List.dropLast_concat_getLast asked, List.mem_append, List.mem_singleton] at missing
  rcases missing with before | last
  · have passes := h.retriable node _ before
    simp [CallResult.isRetriable] at passes
  · rw [List.getLast?_eq_some_getLast asked, last]

theorem no_failures (h : s.Accounted)
    (lacks : ∀ node, s.run.outcomes node = [] ∨ (s.run.outcomes node).getLast? = some .missing) :
    s.run.result.failures = [] := by
  refine List.eq_nil_iff_forall_not_mem.mpr fun f failed => ?_
  obtain ⟨_, _, _, outcomes⟩ := h.failed failed
  rcases lacks f.node with none | last
  · simp [outcomes, NodeFailure.calls] at none
  · simp [outcomes, List.getLast?_map] at last

theorem nothing_found (h : s.Accounted) (reads : s.run.goal = .read found)
    (lacks : ∀ node, s.run.outcomes node = [] ∨ (s.run.outcomes node).getLast? = some .missing) :
    found = none := by
  cases found with
  | none => rfl
  | some holder =>
    obtain ⟨node, value⟩ := holder
    have files := h.files node
    have last := lacks node
    generalize s.run.outcomes node = outcomes at files last
    cases files with
    | unasked clear =>
      have leaves := clear.goal
      simp [Run.result, reads, Goal.Leaves] at leaves
    | succeeded => simp at last
    | missing leaves => simp [Run.result, reads, Goal.CountsMissing] at leaves
    | failed leaves => simp [Run.result, reads, Goal.Leaves] at leaves

theorem lacks_iff (h : s.Accounted) (reads : s.run.goal = .read found) :
    s.run.result.failures = [] ∧ found = none ↔ ∀ node ∈ s.run.candidates,
      s.run.outcomes node = [] ∨ CallResult.missing ∈ s.run.outcomes node := by
  constructor
  · rintro ⟨clean, rfl⟩ node _
    have files := h.files node
    generalize s.run.outcomes node = outcomes at files
    cases files with
    | unasked => exact .inl rfl
    | succeeded goal => simp [Run.result, reads, Goal.Counts] at goal
    | missing => exact .inr (by simp)
    | failed _ _ failures => simp [OperationResult.failuresOf, clean] at failures
  · intro lacks
    have last : ∀ node, s.run.outcomes node = [] ∨ (s.run.outcomes node).getLast? = some .missing := by
      intro node
      by_cases asked : s.run.outcomes node = []
      · exact .inl asked
      · have lacking := lacks node ((h.covers node).mpr (.inr asked))
        exact .inr (h.last_of_missing (lacking.resolve_left asked))
    exact ⟨h.no_failures last, h.nothing_found reads last⟩

end Stage.Accounted

namespace Operation

/-- A run that ends without a value asked all nodes, or was stopped, or ran out of time. -/
theorem Ended.cause {op : Operation ω α} {e : Stage ω α} (ended : op.Ended e)
    (incomplete : ∀ round, e.run.goal.isComplete round = false) :
    e.untried = [] ∨ e.run.isStopped = true ∨ op.deadline ≤ e.run.now + op.limits.minimumTimeout := by
  cases ended with
  | finished finished => exact .inr (.inl (by simpa [Run.isOver, incomplete] using finished))
  | late late => exact .inr (.inr late)
  | single => exact .inl rfl
  | exhausted => exact .inl rfl

theorem run_absence (network : Network ω α) (limits : Limits) (nodes : List NodeAddress) (world : ω)
    (now : Nat) (signal : StopSignal) (verb : Verb) (key : String) :
    let r := run network limits (.read none) nodes world now signal
    Absence limits now r (r.result.summarize verb key) := by
  intro r
  obtain ⟨e, accounted, _, candidates, kind, ends, same⟩ :=
    run_stage network limits (.read : Goal.Fresh (.read none)) nodes world now signal
  obtain ⟨found, reads⟩ := Goal.read_of_afresh kind
  have run : e.run = r := same
  have absent : r.result.summarize verb key = .ok none ↔ r.AllMissing ∨ r.CutShort := by
    rw [← run, OperationResult.summarize_none_iff (show e.run.result.goal = .read found from reads),
      Run.allMissing_or_cutShort_iff, accounted.lacks_iff reads]
    simp [Run.result]
  refine ⟨absent, ?_, ?_⟩
  · rw [absent]
    constructor
    · intro alike short
      exact short.not_allMissing (alike.mp (.inr short))
    · intro whole
      exact ⟨fun missing => missing.resolve_right whole, .inl⟩
  · rintro ⟨⟨node, member, unasked⟩, lacks⟩
    rw [← run] at member unasked lacks ⊢
    obtain ⟨_, rfl⟩ := (accounted.lacks_iff reads).mpr lacks
    have some : nodes ≠ [] := by
      rintro rfl
      simp [candidates, Candidate.ofAddresses] at member
    have ended := ends some (List.length_pos_iff.mpr some)
    rcases ended.cause (fun round => by rw [reads]; rfl) with none | cut
    · rw [accounted.covers, none] at member
      exact absurd unasked (member.resolve_left List.not_mem_nil)
    · exact cut

end Operation

/-- Absent means absent, unless a read is cut short. The three reads report that there is no content just
if every candidate said so, or if those asked said so and a stop or the deadline left others unasked; so
they do what they are to do just when a run is not cut short. -/
theorem Client.absence {σ : Type} (c : Client) (a : Accessor σ) (key : String) (range : ByteRange)
    (m : Moment σ) :
    Absence c.config.limitsForReads m.now (c.get a key none m) (c.content a key m) ∧
    Absence c.config.limitsForReads m.now (c.get a key (some range) m) (c.contentPart a key range m) ∧
    Absence c.config.limitsForReads m.now (c.head a key m) (c.contentLength a key m) :=
  ⟨Operation.run_absence .., Operation.run_absence .., Operation.run_absence ..⟩

def oneNode : Client :=
  let state : NodeState :=
    ⟨⟨"node", 1⟩, none, KeySpace.standard.fullRange, KeySpace.standard.fullRange, false, 1⟩
  ⟨{}, .replay .standard [.direct state.address state 0 0 0], false, rfl⟩

def plenty : Accessor Unit :=
  let reply {α : Type} (value : α) : Primitive Unit α := fun world _ =>
    ⟨world, 0, world, false, some (.success value)⟩
  ⟨fun _ _ => reply ⟨#[1]⟩, fun _ => reply 1, fun key => reply ⟨key, 1, false, 0⟩,
    fun _ _ _ _ => reply ⟨[], none⟩, fun _ => reply ()⟩

/-- Stopped before it begins, a read reports that there is no content, although the only node has it and
was not asked. -/
theorem stopped_read_absent :
    let node : Candidate := ⟨0, ⟨"node", 1⟩⟩
    let stopped : Moment Unit := ⟨.prompt, (), 0, some 0⟩
    oneNode.content plenty "key" ⟨.prompt, (), 0, none⟩ = .ok (some ⟨#[1]⟩) ∧
      oneNode.content plenty "key" stopped = .ok none ∧
      (oneNode.get plenty "key" none stopped).candidates = [node] ∧
      (oneNode.get plenty "key" none stopped).outcomes node = [] := by
  decide +kernel

end ReplicaRing
