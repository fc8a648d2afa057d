import ReplicaRing.Proofs.Operation.History

/-! Flags of nodes, which may change with every call. While the enabled nodes stand before the disabled
ones, whatever changes, only nodes that were disabled at some time are left to the later rounds. -/
namespace ReplicaRing

variable {ω α : Type}

namespace Network

variable (network : Network ω α) (seen : ω → Prop)

def StaysEnabled (node : NodeAddress) : Prop := ∀ w, seen w → network.isDisabled w node = false

def KeepsOrder (nodes : List NodeAddress) : Prop := ∀ w, seen w →
  nodes.Pairwise fun a b => network.isDisabled w a = true → network.isDisabled w b = true

end Network

theorem ofAddresses_addresses (nodes : List NodeAddress) :
    (Candidate.ofAddresses nodes).map Candidate.address = nodes := by
  simp only [Candidate.ofAddresses, List.map_map]
  exact List.zipIdx_map_fst 0 nodes

theorem Network.KeepsOrder.candidates {network : Network ω α} {seen : ω → Prop} {nodes : List NodeAddress}
    (routed : network.KeepsOrder seen nodes) {w : ω} (looks : seen w) :
    (Candidate.ofAddresses nodes).Pairwise fun a b =>
      network.isDisabled w a.address = true → network.isDisabled w b.address = true := by
  have order := routed w looks
  rw [← ofAddresses_addresses nodes] at order
  exact List.pairwise_map.mp order

/-- What is left to the later rounds stands in the order of the nodes, and was disabled at some time. -/
structure Stage.Defers (op : Operation ω α) (seen : ω → Prop) (s : Stage ω α) : Prop where
  order : s.untried.Sublist s.run.candidates
  skipped : ∀ node ∈ s.skipped, ¬ op.network.StaysEnabled seen node.address
  fresh : s.round ≠ .primary → ∀ node ∈ s.fresh, ¬ op.network.StaysEnabled seen node.address

namespace Operation

variable {op : Operation ω α} {s t : Stage ω α} {seen : ω → Prop}

theorem leavesOut_disabled {node : Candidate} {r : Run ω α} (left : op.leavesOut node r = true) :
    op.network.isDisabled r.world node.address = true := (Bool.and_eq_true_iff.mp left).2

theorem not_staysEnabled {node : NodeAddress} {w : ω} (looks : seen w)
    (disabled : op.network.isDisabled w node = true) : ¬ op.network.StaysEnabled seen node := by
  intro enabled
  rw [enabled w looks] at disabled
  contradiction

theorem Step.defers {nodes : List NodeAddress} (step : op.Step s t) (looks : seen s.run.world)
    (candidates : s.run.candidates = Candidate.ofAddresses nodes) (routed : op.network.KeepsOrder seen nodes)
    (h : s.Defers op seen) : t.Defers op seen := by
  cases step with
  | @leave skipped fresh node due r disabled passes =>
    refine ⟨by simpa [Stage.untried] using h.order, fun c member => ?_, fun late => absurd rfl late⟩
    rcases List.mem_append.mp member with before | last
    · exact h.skipped c before
    · rw [List.mem_singleton.mp last]
      exact not_staysEnabled looks (leavesOut_disabled disabled)
  | @leaveAll skipped fresh node due r disabled stops =>
    -- In this world the list is in order, so all nodes behind a disabled one are disabled too.
    have order := (routed.candidates looks).sublist (candidates ▸ h.order)
    have behind := (List.pairwise_cons.mp (List.pairwise_append.mp order).2.1).1
    refine ⟨by simpa [Stage.untried] using h.order, fun c member => ?_, fun late => absurd rfl late⟩
    rcases List.mem_append.mp member with before | rest
    · exact h.skipped c before
    · refine not_staysEnabled looks ?_
      rcases List.mem_cons.mp rest with rfl | later
      · exact leavesOut_disabled disabled
      · exact behind c later (leavesOut_disabled disabled)
  | @first round skipped fresh node due r may sweeps =>
    refine ⟨?_, h.skipped, fun late c member => h.fresh late c (List.mem_cons_of_mem _ member)⟩
    rw [file_candidates, attempt_candidates]
    exact (List.Sublist.append_left (List.sublist_cons_self node fresh) skipped).trans h.order
  | @again round skipped fresh f due r kept may retries =>
    refine ⟨?_, h.skipped, h.fresh⟩
    rw [refile_candidates, attempt_candidates]
    exact h.order
  | pause may roundStart =>
    refine ⟨?_, h.skipped, h.fresh⟩
    rw [pause_candidates]
    exact h.order
  | retry => exact ⟨h.order, h.skipped, fun _ _ member => absurd member List.not_mem_nil⟩
  | disabled =>
    refine ⟨by simpa [Stage.untried] using h.order, fun _ member => absurd member List.not_mem_nil, ?_⟩
    exact fun _ => h.skipped
  | extra => exact ⟨h.order, h.skipped, fun _ _ member => absurd member List.not_mem_nil⟩

theorem Steps.sees {r : Run ω α} (steps : op.Steps (.start r) s) (none : r.attempts = [])
    {attempts : List (Attempt α)} (made : s.run.attempts <+: attempts) :
    op.Sees r.outside attempts s.run.world := by
  have led := steps.keeps (fun s => s.run.attempts.foldl op.pass r.outside = s.run.outside)
    (fun _ _ => Step.outside) (by rw [Stage.start, none, List.foldl_nil])
  exact ⟨_, made, congrArg Prod.fst led⟩

/-- All that is left to later rounds, at any stage that comes with the first of the attempts. -/
theorem Steps.defers {nodes : List NodeAddress} {goal : Goal α} {world : ω} {now : Nat} {signal : StopSignal}
    (steps : op.Steps (.start (.start (Candidate.ofAddresses nodes) goal world now signal)) s)
    {attempts : List (Attempt α)} (made : s.run.attempts <+: attempts)
    (routed : op.network.KeepsOrder (op.Sees (world, signal) attempts) nodes) :
    s.Defers op (op.Sees (world, signal) attempts) := by
  induction steps with
  | refl => exact ⟨List.Sublist.refl _, fun _ member => absurd member List.not_mem_nil, fun late => absurd rfl late⟩
  | @tail s t steps step ih =>
    have reached : op.Steps _ s := steps
    have before := step.attempts_prefix.trans made
    have candidates := reached.keeps (fun s => s.run.candidates = Candidate.ofAddresses nodes)
      (fun _ _ step same => step.candidates.trans same) rfl
    exact step.defers (reached.sees rfl before) candidates routed (ih before)

end Operation
end ReplicaRing
