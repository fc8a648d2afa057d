import ReplicaRing.Proofs.KeySpace.Coverage
import ReplicaRing.Proofs.Routing.Versions

/-! What coverage says of lookups. Coverage is counted from the ranges of the known nodes, lookups are served from what
is kept. Where all ranges are of the table's space both see the same slots, whatever happened to the table and whatever
hashes were looked up in it before. -/
namespace ReplicaRing.RoutingTable

theorem computeRoute_ne_nil_iff (t : RoutingTable) (hash : KeyHash) : (t.computeRoute hash).nodes ≠ [] ↔
    ∃ entry ∈ t.discovered, entry.2.total.containsSlot hash.slot = true := by
  have sorted := (t.discovered.filter fun entry => entry.2.total.contains hash).mergeSort_perm
    fun x y => x.2.rank hash ≤ y.2.rank hash
  rw [computeRoute, Ne, List.map_eq_nil_iff, ← List.isEmpty_iff, sorted.isEmpty_eq, List.isEmpty_iff,
    List.filter_eq_nil_iff]
  simp [KeyRange.contains]

/-- Nothing that is kept is for another hash. -/
theorem Native.lookup_eq {space : KeySpace} {events : List Event} (native : (replay space events).Native)
    (hash : KeyHash) : ((replay space events).lookup hash).1 = (replay space events).computeRoute hash := by
  rw [RoutingTable.lookup_eq]
  refine native.inTurns.computeRoute_eq ?_
  rw [replay_space]
  exact servedFor_falls space events hash

section Serving

variable {t : RoutingTable} (native : t.Native) (served : ∀ hash, (t.lookup hash).1 = t.computeRoute hash)
include native served

/-- A lookup finds a node just if some known node covers the slot. -/
theorem lookup_ne_nil_iff (hash : KeyHash) : (t.lookup hash).1.nodes ≠ [] ↔
    ∃ entry ∈ t.discovered, entry.2.total.containsSlot (hash.slot % t.space.length) = true := by
  rw [served, computeRoute_ne_nil_iff]
  refine exists_congr fun entry => and_congr_right fun member => ?_
  rw [← native.total member, KeyRange.containsSlot_mod]

theorem coverage_eq_count_lookups (full : Nat → UInt64) :
    t.coverage = Nat.count (fun slot => (t.lookup ⟨full slot, slot⟩).1.nodes ≠ []) t.space.length := by
  rw [coverage, KeySpace.coverage_eq_count, Nat.count_eq_card_filter_range, Nat.count_eq_card_filter_range]
  congr 1
  refine Finset.filter_congr fun slot inside => ?_
  rw [Finset.mem_range] at inside
  rw [lookup_ne_nil_iff native served, Nat.mod_eq_of_lt inside]
  simp only [List.mem_map, exists_exists_and_eq_and]
  refine exists_congr fun entry => and_congr_right fun member => ?_
  rw [native.total member]
  exact and_iff_right inside

theorem isFullyAvailable_iff (full : Nat → UInt64) :
    t.isFullyAvailable = true ↔ ∀ slot < t.space.length, (t.lookup ⟨full slot, slot⟩).1.nodes ≠ [] := by
  rw [isFullyAvailable, beq_iff_eq, coverage_eq_count_lookups native served full, Nat.count_iff_forall]

/-- Any hash will do that falls into the slot. -/
theorem isFullyAvailable_iff_keys {Key : Type} {routing : Key → UInt64}
    (all : ∀ slot < t.space.length, ∃ key, (t.space.hash (routing key)).slot = slot) :
    t.isFullyAvailable = true ↔ ∀ key, (t.lookup (t.space.hash (routing key))).1.nodes ≠ [] := by
  rw [isFullyAvailable_iff native served fun _ => 0]
  constructor
  · intro found key
    have there := found _ (hash_inside t.space (routing key))
    rw [lookup_ne_nil_iff native served] at there ⊢
    exact there
  · intro found slot inside
    obtain ⟨key, falls⟩ := all slot inside
    have there := found key
    rw [lookup_ne_nil_iff native served, falls] at there
    rwa [lookup_ne_nil_iff native served]

end Serving

theorem hash_ofNat_slot (space : KeySpace) {slot : Nat} (inside : slot < space.length) :
    (space.hash (UInt64.ofNat slot)).slot = slot := by
  have small : slot < 2 ^ 64 :=
    calc slot < space.length := inside
      _ ≤ maxKeySpaceLength := space.length_le
      _ < 2 ^ 64 := by decide
  rw [KeySpace.hash, UInt64.toNat_ofNat_of_lt' small, Nat.mod_eq_of_lt inside]

/-- Coverage and lookups agree in every table whose nodes have ranges of its space. Coverage is the number of slots for
which a lookup finds a node, and the space is fully available just if there is a node for every hash that a key can
have. Then there is one for every key, and keys that fall into all slots tell whether it is so. -/
theorem coverage_counts_lookups {space : KeySpace} {events : List Event} {t : RoutingTable}
    (made : t = replay space events) (native : t.Native) :
    (∀ full : Nat → UInt64,
      t.coverage = Nat.count (fun slot => (t.lookup ⟨full slot, slot⟩).1.nodes ≠ []) t.space.length) ∧
    (t.isFullyAvailable = true ↔ ∀ full, (t.lookup (t.space.hash full)).1.nodes ≠ []) ∧
    (t.isFullyAvailable = true → ∀ key, (t.lookup (t.hashKey key)).1.nodes ≠ []) ∧
    ∀ (Key : Type) (routing : Key → UInt64),
      (∀ slot < t.space.length, ∃ key, (t.space.hash (routing key)).slot = slot) →
        (t.isFullyAvailable = true ↔ ∀ key, (t.lookup (t.space.hash (routing key))).1.nodes ≠ []) := by
  have served : ∀ hash, (t.lookup hash).1 = t.computeRoute hash := by
    subst made
    exact native.lookup_eq
  have hashes : t.isFullyAvailable = true ↔ ∀ full, (t.lookup (t.space.hash full)).1.nodes ≠ [] :=
    isFullyAvailable_iff_keys native served fun slot inside => ⟨_, hash_ofNat_slot t.space inside⟩
  refine ⟨coverage_eq_count_lookups native served, hashes, fun available key => ?_, fun _ _ all => ?_⟩
  · exact hashes.mp available (routingHash key)
  · exact isFullyAvailable_iff_keys native served all

def halves : List Event :=
  let serving (host : String) (half : KeyRange) : NodeState := ⟨⟨host, 1⟩, none, half, half, false, 1⟩
  [.direct ⟨"a", 1⟩ (serving "a" ⟨quarters, 2, 2, by decide, by decide⟩) 0 0 0,
    .direct ⟨"b", 1⟩ (serving "b" ⟨quarters, 3, 2, by decide, by decide⟩) 0 0 0]

theorem quarters_hit {slot : Nat} (inside : slot < 4) : ∃ key, (quarters.hash (routingHash key)).slot = slot :=
  match slot, inside with
  | 0, _ => ⟨"8", by decide +kernel⟩
  | 1, _ => ⟨"9", by decide +kernel⟩
  | 2, _ => ⟨"7", by decide +kernel⟩
  | 3, _ => ⟨"5", by decide +kernel⟩

/-- Also after a hash of another space was looked up, three slots count as covered, and some text finds no node. -/
theorem halves_leave_a_gap :
    let events := halves ++ [.lookup (KeySpace.standard.hash 77)]
    let t := replay quarters events
    t.Native ∧ t.space = quarters ∧
      Nat.count (fun slot => (t.lookup ⟨0, slot⟩).1.nodes ≠ []) t.space.length = 3 ∧
      ¬ ∀ key, (t.lookup (t.hashKey key)).1.nodes ≠ [] := by
  intro events t
  have native : t.Native := by decide
  have own : t.space = quarters := by decide
  have covered : t.coverage = 3 := by decide
  obtain ⟨counts, -, -, keys⟩ := coverage_counts_lookups (rfl : t = replay quarters events) native
  have texts : t.isFullyAvailable = true ↔ ∀ key, (t.lookup (t.hashKey key)).1.nodes ≠ [] := by
    refine keys String routingHash ?_
    rw [own]
    exact fun _ => quarters_hit
  have gap : ¬ t.isFullyAvailable = true := by
    rw [isFullyAvailable, covered, own]
    decide
  exact ⟨native, own, (counts fun _ => 0).symm.trans covered, fun found => gap (texts.mpr found)⟩

end ReplicaRing.RoutingTable
