import ReplicaRing.Proofs.KeySpace.Union
import ReplicaRing.Proofs.Routing.Replay

/-! A lookup gives a route that would be computed now, though it may be kept. Kept routes are either of an earlier
version, and then never served again, or computed from the same placements. But they are kept by slots of the table's
space, into which the hashes of any space fall: the route of a slot is the one for the hash that was looked up there
first since routing last changed. -/
namespace ReplicaRing.RoutingTable

section Computing

variable {t t' : RoutingTable} (hash : KeyHash)

theorem discovered_eq (listed : t.listed = t.nodes.addresses) : t.discovered = t.nodes.entries := by
  rw [discovered, listed, Registry.filterMap_get?]

theorem node?_eq (listed : t.listed = t.nodes.addresses) (a : NodeAddress) : t.node? a = t.nodes.get? a := by
  rw [node?, discovered_eq listed, Registry.get?]

theorem computeRoute_eq (listed : t.listed = t.nodes.addresses) :
    let rank (entry : NodeAddress × KeyRange × KeyRange × Bool) : Nat :=
      entry.2.1.distance hash + if entry.2.2.2 then entry.2.1.space.length else 0
    t.computeRoute hash = ⟨t.version,
      ((t.placed.filter fun entry => (entry.2.1.union entry.2.2.1).contains hash).mergeSort
        fun x y => rank x ≤ rank y).map (·.1)⟩ := by
  intro rank
  let covering := t.nodes.entries.filter fun entry => entry.2.total.contains hash
  have sorted : (covering.mergeSort fun x y => x.2.rank hash ≤ y.2.rank hash).map
        (fun entry => (entry.1, entry.2.placement)) =
      (covering.map fun entry => (entry.1, entry.2.placement)).mergeSort fun x y => rank x ≤ rank y :=
    List.map_mergeSort fun _ _ _ _ => rfl
  have chosen : t.placed.filter (fun entry => (entry.2.1.union entry.2.2.1).contains hash) =
      covering.map fun entry => (entry.1, entry.2.placement) := List.filter_map
  rw [chosen, ← sorted, List.map_map, computeRoute, discovered_eq listed]
  rfl

theorem computeRoute_congr (listed : t.listed = t.nodes.addresses) (listed' : t'.listed = t'.nodes.addresses)
    (version : t'.version = t.version) (placed : t'.placed = t.placed) :
    t'.computeRoute hash = t.computeRoute hash := by
  rw [computeRoute_eq hash listed, computeRoute_eq hash listed', version, placed]

end Computing

section Lookups

variable {t : RoutingTable} {hash : KeyHash}

theorem lookup_of_kept {route : Route}
    (kept : (t.routes[hash.slot % t.space.length]?).filter (·.version = t.version) = some route) :
    t.lookup hash = (route, t) := by
  simp only [lookup, kept]

theorem lookup_of_none (none : (t.routes[hash.slot % t.space.length]?).filter (·.version = t.version) = none) :
    t.lookup hash = (t.computeRoute hash,
      { t with routes := t.routes.insert (hash.slot % t.space.length) (t.computeRoute hash) }) := by
  simp only [lookup, none]

theorem version_lookup (t : RoutingTable) (hash : KeyHash) : (t.lookup hash).1.version = t.version := by
  cases kept : (t.routes[hash.slot % t.space.length]?).filter (·.version = t.version) with
  | none => rw [lookup_of_none kept, computeRoute]
  | some route =>
    rw [lookup_of_kept kept]
    simpa using (Option.filter_eq_some_iff.mp kept).2

end Lookups

section Frames

variable {t : RoutingTable}

theorem listed_apply (listed : t.listed = t.nodes.addresses) (event : Event) :
    (t.apply event).listed = (t.apply event).nodes.addresses := by
  rcases t.apply_cases event with ⟨-, changed, changes⟩ | ⟨hash, rfl⟩
  · exact changes.listed listed
  · obtain ⟨routes, frame⟩ := t.lookup_frame hash
    rw [apply, frame]
    exact listed

/-- Readers see the nodes that updates work on. -/
theorem replay_listed (space : KeySpace) (events : List Event) :
    (replay space events).listed = (replay space events).nodes.addresses :=
  replay_keeps (fun t => t.listed = t.nodes.addresses) rfl fun _ listed event _ => listed_apply listed event

theorem space_apply (event : Event) : (t.apply event).space = t.space := by
  rcases t.apply_cases event with ⟨-, changed, changes⟩ | ⟨hash, rfl⟩
  · exact changes.space
  · obtain ⟨routes, frame⟩ := t.lookup_frame hash
    rw [apply, frame]

theorem replay_space (space : KeySpace) (events : List Event) : (replay space events).space = space :=
  replay_keeps (fun t => t.space = space) rfl fun _ same event _ => (space_apply event).trans same

theorem version_apply (t : RoutingTable) (event : Event) : t.version ≤ (t.apply event).version ∧
    ((t.apply event).placed ≠ t.placed → t.version < (t.apply event).version) := by
  rcases t.apply_cases event with ⟨-, changed, changes⟩ | ⟨hash, rfl⟩
  · have version := changes.version
    have placed := changes.placed
    cases changed <;> simp_all
  · obtain ⟨routes, frame⟩ := t.lookup_frame hash
    simp [apply, frame, placed]

theorem version_foldl (t : RoutingTable) (events : List Event) : t.version ≤ (events.foldl apply t).version :=
  List.foldlRecOn (motive := fun later => t.version ≤ later.version) events apply (Nat.le_refl _)
    fun later le event _ => Nat.le_trans le (later.version_apply event).1

/-- A change of placements leaves every version before it behind, for good. -/
theorem version_lt_of_changed {space : KeySpace} {past before : List Event} {event : Event} (after : List Event)
    (earlier : past <+: before) (changed : ((replay space before).apply event).placed ≠ (replay space before).placed) :
    (replay space past).version < (replay space (before ++ event :: after)).version := by
  obtain ⟨between, rfl⟩ := earlier
  calc (replay space past).version
      ≤ (replay space (past ++ between)).version := by
        rw [replay_append]
        exact version_foldl _ between
    _ < ((replay space (past ++ between)).apply event).version := (version_apply _ event).2 changed
    _ ≤ (replay space (past ++ between ++ event :: after)).version := by
        rw [replay_append space (past ++ between)]
        exact version_foldl _ after

end Frames

section Watching

def Event.asks? (space : KeySpace) (place : Nat) (event : Event) : Option Nat :=
  (event.hash?.map (·.slot)).filter (· % space.length = place)

theorem Event.asks?_of_update {event : Event} (update : event.hash? = none) (space : KeySpace) (place : Nat) :
    event.asks? space place = none := by
  rw [asks?, update, Option.map_none, Option.filter_none]

/-- A step of a table, together with what one of its slots was asked for first since routing last changed. -/
def watch (place : Nat) (seen : RoutingTable × Option Nat) (event : Event) : RoutingTable × Option Nat :=
  let t := seen.1.apply event
  (t, (if t.version = seen.1.version then seen.2 else none).or (event.asks? t.space place))

/-- The slot, perhaps of another space, that was looked up first in a place since routing last changed. -/
def asked? (space : KeySpace) (events : List Event) (place : Nat) : Option Nat :=
  (events.foldl (watch place) (empty space, none)).2

/-- The hash for which the route of a hash is computed. -/
def servedFor (space : KeySpace) (events : List Event) (hash : KeyHash) : KeyHash :=
  { hash with slot := (asked? space events (hash.slot % space.length)).getD hash.slot }

/-- What is kept is of the past, or what would be computed for the slot that was asked for, which is all that matters of
a hash. -/
structure Watched (place : Nat) (t : RoutingTable) (asked : Option Nat) : Prop where
  listed : t.listed = t.nodes.addresses
  past : ∀ route, t.routes[place]? = some route → route.version ≤ t.version
  kept : (t.routes[place]?).filter (·.version = t.version) = asked.map fun slot => t.computeRoute ⟨0, slot⟩
  falls : ∀ slot, asked = some slot → slot % t.space.length = place

variable {t t' : RoutingTable} {place : Nat} {asked : Option Nat} {changed : Bool}

/-- Routes survive an update as they are. If the version does not rise they are made of the same; else all are of the
past. -/
theorem Watched.changes (watched : t.Watched place asked) (changes : t.Changes (changed, t')) :
    t'.Watched place (if t'.version = t.version then asked else none) := by
  have listed := changes.listed watched.listed
  have version : t'.version = if changed then t.version + 1 else t.version := changes.version
  have routes : t'.routes = t.routes := changes.routes
  cases changed with
  | true =>
    rw [if_pos rfl] at version
    rw [if_neg (by omega)]
    refine ⟨listed, fun route found => ?_, ?_, fun _ none => nomatch none⟩
    · have before := watched.past route (routes ▸ found)
      omega
    · simp only [routes, Option.map_none, Option.filter_eq_none_iff, decide_eq_true_eq]
      intro route found now
      have before := watched.past route found
      omega
  | false =>
    rw [if_neg Bool.false_ne_true] at version
    have same : t'.placed = t.placed := by simpa using changes.placed
    have space : t'.space = t.space := changes.space
    rw [if_pos version]
    refine ⟨listed, ?_, ?_, ?_⟩
    · simpa only [routes, version] using watched.past
    · simp only [routes, version, watched.kept, computeRoute_congr _ watched.listed listed version same]
    · simpa only [space] using watched.falls

/-- A lookup keeps a route where none is current, and is the first then that asks for the slot. -/
theorem Watched.lookup (watched : t.Watched place asked) (hash : KeyHash) :
    (t.lookup hash).2.Watched place (asked.or ((Event.lookup hash).asks? t.space place)) := by
  by_cases here : hash.slot % t.space.length = place
  · have asks : (Event.lookup hash).asks? t.space place = some hash.slot := by simp [Event.asks?, Event.hash?, here]
    rw [asks]
    subst here
    cases asked with
    | some slot =>
      rw [lookup_of_kept watched.kept]
      exact watched
    | none =>
      rw [lookup_of_none watched.kept]
      refine ⟨watched.listed, fun route found => ?_, ?_, fun slot asked => ?_⟩
      · rw [Std.TreeMap.getElem?_insert_self] at found
        cases found
        exact Nat.le_refl _
      · simp only [Std.TreeMap.getElem?_insert_self]
        exact Option.filter_some_pos (decide_eq_true rfl)
      · cases asked
        rfl
  · have asks : (Event.lookup hash).asks? t.space place = none := by simp [Event.asks?, Event.hash?, here]
    rw [asks, Option.or_none]
    cases kept : (t.routes[hash.slot % t.space.length]?).filter (·.version = t.version) with
    | some route =>
      rw [lookup_of_kept kept]
      exact watched
    | none =>
      have apart (route : Route) : (t.routes.insert (hash.slot % t.space.length) route)[place]? = t.routes[place]? := by
        rw [Std.TreeMap.getElem?_insert, if_neg (mt Nat.compare_eq_eq.mp here)]
      rw [lookup_of_none kept]
      refine ⟨watched.listed, ?_, ?_, watched.falls⟩
      · simpa only [apart] using watched.past
      · simp only [apart]
        exact watched.kept

theorem Watched.watch (watched : t.Watched place asked) (event : Event) :
    (watch place (t, asked) event).1.Watched place (watch place (t, asked) event).2 := by
  rcases t.apply_cases event with ⟨update, changed, changes⟩ | ⟨hash, rfl⟩
  · simpa only [RoutingTable.watch, event.asks?_of_update update, Option.or_none] using watched.changes changes
  · obtain ⟨routes, frame⟩ := t.lookup_frame hash
    have looked := watched.lookup hash
    rw [frame] at looked
    simpa only [RoutingTable.watch, apply, frame, if_true] using looked

theorem foldl_watch (space : KeySpace) (events : List Event) (place : Nat) :
    events.foldl (watch place) (empty space, none) = (replay space events, asked? space events place) := by
  have table : (events.foldl (watch place) (empty space, none)).1 = replay space events :=
    (List.foldl_hom Prod.fst fun _ _ => rfl).symm
  rw [← table, asked?]

theorem replay_watched (space : KeySpace) (events : List Event) (place : Nat) :
    (replay space events).Watched place (asked? space events place) := by
  have starts : (empty space).Watched place none := ⟨rfl, by simp [empty], by simp [empty], fun _ none => nomatch none⟩
  have watched := List.foldlRecOn (motive := fun seen => seen.1.Watched place seen.2) events (RoutingTable.watch place)
    (b := (empty space, none)) starts fun _ watched event _ => watched.watch event
  rwa [foldl_watch] at watched

variable {space : KeySpace} {events : List Event} {hash : KeyHash}

theorem servedFor_falls (space : KeySpace) (events : List Event) (hash : KeyHash) :
    (servedFor space events hash).slot % space.length = hash.slot % space.length := by
  have falls := (replay_watched space events (hash.slot % space.length)).falls
  rw [replay_space] at falls
  rw [servedFor]
  cases asked : asked? space events (hash.slot % space.length) with
  | none => rfl
  | some slot => exact falls slot asked

/-- What a lookup gives is what would be computed now, for the hash that asked first. -/
theorem lookup_eq (space : KeySpace) (events : List Event) (hash : KeyHash) :
    ((replay space events).lookup hash).1 = (replay space events).computeRoute (servedFor space events hash) := by
  have kept := (replay_watched space events (hash.slot % space.length)).kept
  have place : hash.slot % (replay space events).space.length = hash.slot % space.length := by rw [replay_space]
  rw [servedFor]
  cases asked : asked? space events (hash.slot % space.length) with
  | none =>
    rw [asked, ← place] at kept
    rw [lookup_of_none kept]
    rfl
  | some slot =>
    rw [asked, ← place] at kept
    rw [lookup_of_kept kept]
    rfl

end Watching

section Foreign

variable {space : KeySpace} {events : List Event} {t : RoutingTable} {hash hash' : KeyHash}

theorem hash_inside (space : KeySpace) (full : UInt64) : (space.hash full).slot < space.length :=
  Nat.mod_lt _ space.length_pos

theorem Event.hash?_eq_some_iff {event : Event} : event.hash? = some hash ↔ event = .lookup hash := by
  cases event <;> simp [Event.hash?]

/-- A change forgets what was asked for before. -/
theorem asked?_of_changed {before : List Event} {event : Event} (place : Nat)
    (changed : ((replay space before).apply event).placed ≠ (replay space before).placed) :
    asked? space (before ++ [event]) place = none := by
  have risen := (version_apply _ event).2 changed
  rw [asked?, List.foldl_append, foldl_watch, List.foldl_cons, List.foldl_nil, watch, if_neg (Nat.ne_of_gt risen),
    Option.none_or]
  rcases (replay space before).apply_cases event with ⟨update, -⟩ | ⟨hash, rfl⟩
  · exact event.asks?_of_update update _ _
  · obtain ⟨routes, frame⟩ := (replay space before).lookup_frame hash
    rw [apply, frame] at changed
    exact absurd rfl changed

theorem watch_inside {place : Nat} {seen : RoutingTable × Option Nat} {event : Event}
    (before : ∀ slot, seen.2 = some slot → slot < space.length)
    (own : ∀ hash, event = .lookup hash → hash.slot < space.length) :
    ∀ slot, (watch place seen event).2 = some slot → slot < space.length := by
  intro slot asked
  rcases Option.or_eq_some_iff.mp asked with known | ⟨-, asks⟩
  · split at known
    · exact before slot known
    · cases known
  · obtain ⟨looked, -⟩ := Option.filter_eq_some_iff.mp asks
    obtain ⟨hash, here, rfl⟩ := Option.map_eq_some_iff.mp looked
    exact own hash (Event.hash?_eq_some_iff.mp here)

theorem asked?_inside {before after : List Event} {place slot : Nat} (forgotten : asked? space before place = none)
    (own : ∀ hash, Event.lookup hash ∈ after → hash.slot < space.length)
    (asked : asked? space (before ++ after) place = some slot) : slot < space.length := by
  rw [asked?, List.foldl_append, foldl_watch, forgotten] at asked
  exact List.foldlRecOn (motive := fun seen => ∀ slot, seen.2 = some slot → slot < space.length) after (watch place)
    (b := (replay space before, none)) (fun _ none => nomatch none)
    (fun _ inside event member => watch_inside inside fun hash here => own hash (here ▸ member)) slot asked

/-- Two slots of the space that fall into one place are one. -/
theorem servedFor_eq (inside : hash.slot < space.length) (first : (servedFor space events hash).slot < space.length) :
    servedFor space events hash = hash := by
  have falls := servedFor_falls space events hash
  rw [Nat.mod_eq_of_lt inside, Nat.mod_eq_of_lt first] at falls
  exact congrArg (KeyHash.mk hash.full) falls

theorem servedFor_of_own_since {before after : List Event}
    (forgotten : asked? space before (hash.slot % space.length) = none)
    (own : ∀ hash, Event.lookup hash ∈ after → hash.slot < space.length) (inside : hash.slot < space.length) :
    servedFor space (before ++ after) hash = hash := by
  refine servedFor_eq inside ?_
  rw [servedFor]
  cases asked : asked? space (before ++ after) (hash.slot % space.length) with
  | none => exact inside
  | some slot => exact asked?_inside forgotten own asked

theorem servedFor_of_own (own : ∀ hash, Event.lookup hash ∈ events → hash.slot < space.length)
    (inside : hash.slot < space.length) : servedFor space events hash = hash :=
  servedFor_of_own_since (show asked? space [] _ = none from rfl) own inside

/-- A turn of the table's space is a number of turns of each space that a known node has ranges of. -/
def InTurns (t : RoutingTable) : Prop := ∀ entry ∈ t.discovered,
  entry.2.active.space.length ∣ t.space.length ∧ entry.2.total.space.length ∣ t.space.length

/-- Then routes are the same for all hashes that fall into one slot. -/
theorem InTurns.computeRoute_eq (turns : t.InTurns) (same : hash.slot % t.space.length = hash'.slot % t.space.length) :
    t.computeRoute hash = t.computeRoute hash' := by
  have place {length : Nat} (divides : length ∣ t.space.length) : hash.slot % length = hash'.slot % length := by
    rw [← Nat.mod_mod_of_dvd _ divides, same, Nat.mod_mod_of_dvd _ divides]
  have covers : ∀ entry ∈ t.discovered, entry.2.total.contains hash = entry.2.total.contains hash' := by
    intro entry member
    rw [KeyRange.contains, ← KeyRange.containsSlot_mod, place (turns entry member).2, KeyRange.containsSlot_mod,
      KeyRange.contains]
  have rank : ∀ entry ∈ t.discovered, entry.2.rank hash = entry.2.rank hash' := by
    intro entry member
    rw [ServerNode.rank, KeyRange.distance, place (turns entry member).1, ← KeyRange.distance, ServerNode.rank]
  let covering := t.discovered.filter fun entry => entry.2.total.contains hash'
  have sorted : (covering.mergeSort fun x y => x.2.rank hash ≤ y.2.rank hash).map id =
      (covering.map id).mergeSort fun x y => x.2.rank hash' ≤ y.2.rank hash' :=
    List.map_mergeSort fun x x_member y y_member => by
      rw [rank x (List.mem_of_mem_filter x_member), rank y (List.mem_of_mem_filter y_member), id, id]
  rw [List.map_id, List.map_id] at sorted
  rw [computeRoute, computeRoute, List.filter_congr covers, sorted]

def Native (t : RoutingTable) : Prop :=
  ∀ entry ∈ t.discovered, entry.2.active.space = t.space ∧ entry.2.passive.space = t.space

instance : Decidable t.Native := inferInstanceAs (Decidable (∀ entry ∈ t.discovered, _))

theorem Native.total (native : t.Native) {entry : NodeAddress × ServerNode}
    (member : entry ∈ t.discovered) : entry.2.total.space = t.space := by
  obtain ⟨active, passive⟩ := native entry member
  exact (KeyRange.space_union (active.trans passive.symm)).trans active

theorem Native.inTurns (native : t.Native) : t.InTurns := by
  intro entry member
  rw [(native entry member).1, native.total member]
  exact ⟨Nat.dvd_refl _, Nat.dvd_refl _⟩

end Foreign

section Preferring

/-- The nodes to ask for a hash among known ones, best first: each that covers it once, nearest first, and
as they are known where equally near. -/
structure Preference (hash : KeyHash) (known chosen : List (NodeAddress × ServerNode)) : Prop where
  once : (chosen.map (·.1)).Nodup
  covering : ∀ entry, entry ∈ chosen ↔ entry ∈ known ∧ entry.2.total.contains hash = true
  nearest : chosen.Pairwise fun x y => x.2.rank hash ≤ y.2.rank hash
  ties : ∀ rank, chosen.filter (·.2.rank hash = rank) =
    known.filter fun entry => entry.2.total.contains hash && entry.2.rank hash = rank

section Sorting

variable {α : Type} (rank : α → Nat)

theorem rank_trans (x y z : α) : decide (rank x ≤ rank y) → decide (rank y ≤ rank z) →
    decide (rank x ≤ rank z) := by
  simpa using Nat.le_trans

theorem rank_total (x y : α) : decide (rank x ≤ rank y) || decide (rank y ≤ rank x) := by
  simpa using Nat.le_total (rank x) (rank y)

/-- Sorting by a rank does not move anything past its equals. -/
theorem filter_mergeSort (l : List α) (n : Nat) :
    (l.mergeSort fun x y => rank x ≤ rank y).filter (rank · = n) = l.filter (rank · = n) := by
  have level : (l.filter (rank · = n)).Pairwise fun x y => decide (rank x ≤ rank y) := by
    refine List.pairwise_iff_forall_sublist.mpr fun {x y} pair => ?_
    have at_x : rank x = n := by simpa using List.of_mem_filter (pair.subset (.head _))
    have at_y : rank y = n := by simpa using List.of_mem_filter (pair.subset (.tail _ (.head _)))
    simp [at_x, at_y]
  have kept := (List.sublist_mergeSort (rank_trans rank) (rank_total rank) level
    List.filter_sublist).filter (rank · = n)
  simp only [List.filter_filter, Bool.and_self] at kept
  refine (kept.eq_of_length ?_).symm
  exact ((List.mergeSort_perm l _).filter _).length_eq.symm

end Sorting

theorem computeRoute_preference {t : RoutingTable} (hash : KeyHash) (listed : t.listed = t.nodes.addresses) :
    ∃ chosen, t.computeRoute hash = ⟨t.version, chosen.map (·.1)⟩ ∧
      Preference hash t.nodes.entries chosen := by
  let rank (entry : NodeAddress × ServerNode) : Nat := entry.2.rank hash
  let covering := t.nodes.entries.filter fun entry => entry.2.total.contains hash
  let chosen := covering.mergeSort fun x y => rank x ≤ rank y
  have moved : chosen.Perm covering := List.mergeSort_perm _ _
  have sorted : chosen.Pairwise fun x y => decide (rank x ≤ rank y) :=
    List.pairwise_mergeSort (rank_trans rank) (rank_total rank) covering
  refine ⟨chosen, by rw [computeRoute, discovered_eq listed], ?_, ?_, ?_, ?_⟩
  · rw [(moved.map _).nodup_iff]
    exact t.nodes.distinct.sublist (List.filter_sublist.map _)
  · intro entry
    rw [moved.mem_iff, List.mem_filter]
  · simpa using sorted
  · intro n
    rw [filter_mergeSort rank covering n, List.filter_filter]
    simp only [rank, Bool.and_comm]

variable {hash : KeyHash} {known chosen : List (NodeAddress × ServerNode)}

/-- A node whose active or passive range covers the hash is not left out. -/
theorem Preference.lists (preference : Preference hash known chosen) {entry : NodeAddress × ServerNode}
    (member : entry ∈ known) (same : entry.2.active.space = entry.2.passive.space)
    (covered : entry.2.active.contains hash = true ∨ entry.2.passive.contains hash = true) :
    entry ∈ chosen :=
  (preference.covering entry).mpr ⟨member, KeyRange.containsSlot_union same covered⟩

/-- A disabled node stands behind the enabled ones of its space. -/
theorem Preference.enabled_first (preference : Preference hash known chosen) {space : KeySpace}
    (own : ∀ entry ∈ known, entry.2.active.space = space) :
    chosen.Pairwise fun x y => x.2.disabled = true → y.2.disabled = true := by
  refine preference.nearest.imp_of_mem fun {x y} x_chosen y_chosen nearer x_disabled => ?_
  have x_space := own x ((preference.covering x).mp x_chosen).1
  have y_space := own y ((preference.covering y).mp y_chosen).1
  have near := y.2.active.distance_lt hash
  rw [y_space] at near
  cases y_disabled : y.2.disabled with
  | true => rfl
  | false =>
    simp only [ServerNode.rank, x_disabled, x_space, y_disabled, if_true, Bool.false_eq_true, if_false] at nearer
    omega

end Preferring

section Standing

variable {space : KeySpace} {events : List Event}

theorem replay_stands {entry : NodeAddress × ServerNode} (member : entry ∈ (replay space events).nodes.entries) :
    ∃ s, Reported events s ∧
      entry.2.active = s.active ∧ entry.2.passive = s.passive ∧ entry.2.disabled = s.disabled := by
  obtain ⟨s, reported, stands⟩ := replay_reported ((Registry.get?_eq_some_iff _).mpr member)
  exact ⟨s, reported, congrArg (·.1) stands, congrArg (·.2.1) stands, congrArg (·.2.2) stands⟩

theorem native_of_own (own : ∀ s, Reported events s → s.active.space = space ∧ s.passive.space = space) :
    (replay space events).Native := by
  intro entry member
  rw [discovered_eq (replay_listed space events)] at member
  obtain ⟨s, reported, active, passive, -⟩ := replay_stands member
  rw [active, passive, replay_space]
  exact own s reported

/-- What is computed for a hash lists the nodes whose ranges cover it, as far as what was reported allows. -/
theorem replay_preference (space : KeySpace) (events : List Event) (hash : KeyHash) :
    let t := replay space events
    ∃ chosen, t.computeRoute hash = ⟨t.version, chosen.map (·.1)⟩ ∧ Preference hash t.nodes.entries chosen ∧
      ((∀ s, Reported events s → s.active.space = s.passive.space) →
        ∀ entry ∈ t.nodes.entries,
          entry.2.active.contains hash = true ∨ entry.2.passive.contains hash = true → entry ∈ chosen) ∧
      ((∀ s, Reported events s → s.active.space = space ∧ s.passive.space = space) →
        chosen.Pairwise fun x y => x.2.disabled = true → y.2.disabled = true) := by
  intro t
  obtain ⟨chosen, made, preference⟩ := computeRoute_preference hash (replay_listed space events)
  refine ⟨chosen, made, preference, fun alike entry member covered => ?_, fun own => ?_⟩
  · obtain ⟨s, reported, active, passive, -⟩ := replay_stands member
    have same : entry.2.active.space = entry.2.passive.space := by
      rw [active, passive]
      exact alike s reported
    exact preference.lists member same covered
  · have own_active : ∀ entry ∈ t.nodes.entries, entry.2.active.space = space := by
      intro entry member
      obtain ⟨s, reported, active, -⟩ := replay_stands member
      rw [active]
      exact (own s reported).1
    exact preference.enabled_first own_active

end Standing

/-- What lookups give. Whatever happened to a table, a lookup gives the route computed from the nodes known now, for the
hash that asked for the slot first since routing last changed; versions tell it from every route given before that
change. This is the route of the hash itself where that first hash was one of the table's space, so always if no
others were looked up since a change, and where the spaces of known ranges have their turns in common with the table's,
so always if they are the table's own. Then it is the nodes whose ranges cover the hash, nearest first; no node with a
range that covers it is left out; and enabled nodes come first if all ranges are of the table's space. -/
theorem lookup_transparent (space : KeySpace) (events : List Event) (full : UInt64) :
    let t := replay space events
    let hash := space.hash full
    let first := servedFor space events hash
    let route := (t.lookup hash).1
    route = t.computeRoute first ∧ first.slot % space.length = hash.slot ∧
    (∀ before event after, events = before ++ event :: after →
      (replay space (before ++ [event])).placed ≠ (replay space before).placed →
      (∀ past, past <+: before → ∀ other, ((replay space past).lookup other).1.version < route.version) ∧
      ((∀ other, Event.lookup other ∈ after → other.slot < space.length) → first = hash)) ∧
    (first.slot < space.length ∨ t.InTurns → route = t.computeRoute hash) ∧
    ((∀ other, Event.lookup other ∈ events → other.slot < space.length) → first = hash) ∧
    ((∀ s, Reported events s → s.active.space = space ∧ s.passive.space = space) → t.InTurns) ∧
    (route = t.computeRoute hash →
      ∃ chosen, route = ⟨t.version, chosen.map (·.1)⟩ ∧ Preference hash t.nodes.entries chosen ∧
        ((∀ s, Reported events s → s.active.space = s.passive.space) →
          ∀ entry ∈ t.nodes.entries,
            entry.2.active.contains hash = true ∨ entry.2.passive.contains hash = true → entry ∈ chosen) ∧
        ((∀ s, Reported events s → s.active.space = space ∧ s.passive.space = space) →
          chosen.Pairwise fun x y => x.2.disabled = true → y.2.disabled = true)) := by
  intro t hash first route
  have inside : hash.slot < space.length := hash_inside space full
  have served : route = t.computeRoute first := lookup_eq space events hash
  have falls : first.slot % space.length = hash.slot % space.length := servedFor_falls space events hash
  refine ⟨served, falls.trans (Nat.mod_eq_of_lt inside), ?_, ?_, fun own => servedFor_of_own own inside,
    fun own => (native_of_own own).inTurns, fun computed => ?_⟩
  · intro before event after split changed
    rw [replay_append] at changed
    refine ⟨fun past earlier other => ?_, fun own => ?_⟩
    · have left_behind := version_lt_of_changed after earlier changed
      rw [← split] at left_behind
      rw [version_lookup, version_lookup]
      exact left_behind
    · have since := servedFor_of_own_since (asked?_of_changed _ changed) own inside
      rwa [List.append_assoc, List.singleton_append, ← split] at since
  · rintro (native | turns)
    · have same : first = hash := servedFor_eq inside native
      rw [served, same]
    · have own_space : t.space = space := replay_space space events
      rw [served, turns.computeRoute_eq (own_space ▸ falls)]
  · obtain ⟨chosen, made, parts⟩ := replay_preference space events hash
    exact ⟨chosen, computed.trans made, parts⟩

def quarters : KeySpace := ⟨4, by decide, by decide⟩

/-- Two nodes serve everything, and the first is reported disabled after its route was kept. -/
def handover : List Event :=
  let serving (host : String) (disabled : Bool) (updated : UInt64) : NodeState :=
    ⟨⟨host, 1⟩, none, quarters.fullRange, quarters.fullRange, disabled, updated⟩
  [.direct ⟨"a", 1⟩ (serving "a" false 1) 0 0 0, .direct ⟨"b", 1⟩ (serving "b" false 1) 0 0 0,
    .lookup (quarters.hash 2), .indirect ⟨"b", 1⟩ (serving "a" true 2)]

/-- Both nodes are listed after that, the disabled one last. -/
theorem handover_transparent :
    (∀ s, Reported handover s → s.active.space = quarters ∧ s.passive.space = quarters) ∧
    ∃ chosen : List (NodeAddress × ServerNode),
      ((replay quarters handover).lookup (quarters.hash 6)).1 = ⟨4, chosen.map (·.1)⟩ ∧
      (∀ entry ∈ (replay quarters handover).nodes.entries, entry ∈ chosen) ∧
      chosen.Pairwise fun x y => x.2.disabled = true → y.2.disabled = true := by
  have own : ∀ s, Reported handover s → s.active.space = quarters ∧ s.passive.space = quarters := by
    rintro s ⟨event, member, state⟩
    simp only [handover, List.mem_cons, List.not_mem_nil, or_false] at member
    rcases member with rfl | rfl | rfl | rfl <;> cases state <;> exact ⟨rfl, rfl⟩
  obtain ⟨-, -, -, transparent, -, turns, routed⟩ := lookup_transparent quarters handover 6
  obtain ⟨chosen, made, -, listed, ordered⟩ := routed (transparent (.inr (turns own)))
  have covered : ∀ entry ∈ (replay quarters handover).nodes.entries,
      entry.2.active.contains (quarters.hash 6) = true := by decide
  refine ⟨own, chosen, made, fun entry member => ?_, ordered own⟩
  exact listed (fun s reported => (own s reported).1.trans (own s reported).2.symm) entry member
    (.inl (covered entry member))

def eights : KeySpace := ⟨2 * quarters.length, by decide, by decide⟩

/-- A node serves the second half of eight slots, and a hash of that half is looked up. -/
def detour : List Event :=
  let half : KeyRange := ⟨eights, 4, 4, by decide, by decide⟩
  [.direct ⟨"a", 1⟩ ⟨⟨"a", 1⟩, none, half, half, false, 1⟩ 0 0 0, .lookup (eights.hash 4)]

/-- In a table of four slots the hash falls into the first one, where the node is listed from then on, though it does
not cover the slot and would not be listed by computing the route again. -/
theorem detour_misleads :
    let t := replay quarters detour
    let hash := quarters.hash 0
    (∀ s, Reported detour s → s.active.space = s.passive.space) ∧
      (∀ entry ∈ t.discovered, entry.2.total.contains hash = false) ∧
      (t.lookup hash).1.nodes = [⟨"a", 1⟩] ∧ (t.computeRoute hash).nodes = [] := by
  refine ⟨?_, by decide, by decide +kernel, by decide +kernel⟩
  rintro s ⟨event, member, state⟩
  simp only [detour, List.mem_cons, List.not_mem_nil, or_false] at member
  rcases member with rfl | rfl <;> cases state
  rfl

end ReplicaRing.RoutingTable
