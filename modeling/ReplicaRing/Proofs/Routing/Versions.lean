import ReplicaRing.Proofs.Routing.Redelivery

/-! The version of a table moves just when routing does. That each update is right about routing is said in `Changes`
of what updates work on; here it is said of what readers see, in every table that comes about. -/
namespace ReplicaRing.RoutingTable

/-- Routing as readers see it: where the known nodes stand, in order of discovery. -/
def published (t : RoutingTable) : List (NodeAddress × KeyRange × KeyRange × Bool) :=
  t.discovered.map fun (a, n) => (a, n.active, n.passive, n.disabled)

/-- An update answers that routing changed and raises the version by one if readers see it changed, and answers that
it did not and keeps the version if they do not. -/
structure Announces (t : RoutingTable) (update : Bool × RoutingTable) : Prop where
  change : update.2.published ≠ t.published → update.1 = true ∧ update.2.version = t.version + 1
  silence : update.2.published = t.published → update.1 = false ∧ update.2.version = t.version

theorem published_eq {t : RoutingTable} (listed : t.listed = t.nodes.addresses) : t.published = t.placed := by
  rw [published, discovered_eq listed]
  rfl

section Announcing

variable {t : RoutingTable} {update : Bool × RoutingTable}

theorem Changes.announces (changes : t.Changes update) (listed : t.listed = t.nodes.addresses) :
    t.Announces update := by
  have version := changes.version
  have placed := changes.placed
  rw [← published_eq listed, ← published_eq (changes.listed listed)] at placed
  constructor
  · intro differs
    have changed := placed.mpr differs
    rw [changed, if_pos rfl] at version
    exact ⟨changed, version⟩
  · intro same
    have unchanged : update.1 = false := by simpa using mt placed.mp (not_not_intro same)
    rw [unchanged, if_neg Bool.false_ne_true] at version
    exact ⟨unchanged, version⟩

/-- A report that is no newer than what is known changes nothing at all. -/
theorem updateIndirect_stale {reporter : NodeAddress} {s : NodeState} {n : ServerNode}
    (known : t.nodes.get? (resolve reporter s) = some n) (stale : s.lastUpdated ≤ n.nodeFetched) :
    t.updateIndirect reporter s = (false, t) := by
  simp only [updateIndirect, known, if_pos stale]

theorem hint_silent (listed : t.listed = t.nodes.addresses) (a : NodeAddress) (request response available : UInt64) :
    (t.hint a request response available).2.version = t.version ∧
      (t.hint a request response available).2.published = t.published := by
  have changes := t.hint_changes a request response available
  have placed : (t.hint a request response available).2.placed = t.placed := by simpa using changes.placed
  refine ⟨changes.version, ?_⟩
  rw [published_eq listed, published_eq (changes.listed listed), placed]

theorem lookup_silent (listed : t.listed = t.nodes.addresses) (hash : KeyHash) :
    (t.lookup hash).2.version = t.version ∧ (t.lookup hash).2.published = t.published := by
  have after : (t.lookup hash).2.listed = (t.lookup hash).2.nodes.addresses := listed_apply listed (.lookup hash)
  rw [published_eq listed, published_eq after]
  obtain ⟨routes, frame⟩ := t.lookup_frame hash
  rw [frame]
  exact ⟨rfl, rfl⟩

/-- The version moves just when routing does. Reports and removals announce what they do to it, whatever table they
come to; a report that is no newer than what is known leaves every node, and all else, as it is; hints and lookups
change neither version nor routing; and a message is answered by whether the version rose. -/
theorem version_announces (space : KeySpace) (events : List Event) :
    let t := replay space events
    (∀ a s request response cluster, t.Announces (t.updateDirect a s request response cluster)) ∧
    (∀ reporter s, t.Announces (t.updateIndirect reporter s)) ∧
    (∀ a, t.Announces (t.remove a)) ∧
    (∀ reporter s n, t.node? (resolve reporter s) = some n → s.lastUpdated ≤ n.nodeFetched →
      t.updateIndirect reporter s = (false, t)) ∧
    (∀ a request response available, (t.hint a request response available).2.version = t.version ∧
      (t.hint a request response available).2.published = t.published) ∧
    (∀ hash, (t.lookup hash).2.version = t.version ∧ (t.lookup hash).2.published = t.published) ∧
    ∀ sender m request response, (t.ingest sender m request response).1 = true ↔
      t.version < (t.ingest sender m request response).2.version := by
  intro t
  have listed : t.listed = t.nodes.addresses := replay_listed space events
  refine ⟨fun a s request response cluster => (t.updateDirect_changes a s request response cluster).announces listed,
    fun reporter s => (t.updateIndirect_changes reporter s).announces listed,
    fun a => (t.remove_changes a).announces listed,
    fun reporter s n known stale => ?_, hint_silent listed, lookup_silent listed, fun sender m request response => ?_⟩
  · rw [node?_eq listed] at known
    exact updateIndirect_stale known stale
  · obtain ⟨le, same⟩ := t.ingest_version sender m request response
    rw [← Bool.not_eq_false, same]
    omega

/-- After a handover, and after a hash of another space was looked up: a report on the first node that is as old as
what is known is ignored, though it says otherwise, and the removal of the node raises the version. -/
theorem handover_announced :
    let t := replay quarters (handover ++ [.lookup (KeySpace.standard.hash 77)])
    t.version = 4 ∧
      (∃ n, t.node? ⟨"a", 1⟩ = some n ∧ n.disabled = true ∧ n.nodeFetched = 2) ∧
      t.updateIndirect ⟨"b", 1⟩ (everywhere false 2) = (false, t) ∧
      (t.remove ⟨"a", 1⟩).1 = true ∧ (t.remove ⟨"a", 1⟩).2.version = 5 := by
  intro t
  obtain ⟨-, -, removed, ignored, -, -, -⟩ :=
    version_announces quarters (handover ++ [.lookup (KeySpace.standard.hash 77)])
  have version : t.version = 4 := by decide
  have stands : (t.node? ⟨"a", 1⟩).map (fun n => (n.disabled, n.nodeFetched)) = some (true, 2) := by decide
  obtain ⟨n, known, shows⟩ := Option.map_eq_some_iff.mp stands
  obtain ⟨disabled, fetched⟩ := Prod.mk.inj shows
  have here : resolve ⟨"b", 1⟩ (everywhere false 2) = ⟨"a", 1⟩ := by decide
  have stale : (everywhere false 2).lastUpdated ≤ n.nodeFetched := fetched ▸ UInt64.le_refl _
  obtain ⟨answered, raised⟩ := (removed ⟨"a", 1⟩).change (by decide)
  exact ⟨version, ⟨n, known, disabled, fetched⟩, ignored ⟨"b", 1⟩ _ n (here ▸ known) stale, answered,
    raised.trans (congrArg (· + 1) version)⟩

end Announcing

end ReplicaRing.RoutingTable
