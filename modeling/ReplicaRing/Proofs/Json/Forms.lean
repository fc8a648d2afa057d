import ReplicaRing.Content.ByteRange
import ReplicaRing.Node.State
import ReplicaRing.Proofs.Json.Record
import ReplicaRing.Proofs.Node.AddressText

/-! Written forms of what nodes exchange. For each type `Denotes` says which values stand for which of its elements,
without the decoder; the decoder accepts these and no others. What decodes is therefore valid, and it is read back
from what is written of it. -/
namespace ReplicaRing

/-- A decoder accepts the values that stand for something; what they stand for is sound, and decodes again once it is
written. Of an object only the members of the fields are read. -/
structure Json.Decodes {α : Type} (read : Json.Decoder α) (write : α → Json) (fields : List String)
    (Denotes : Json → α → Prop) (Sound : α → Prop) : Prop where
  accepts : ∀ j x, read j = .ok x ↔ Denotes j x
  sound : ∀ j x, read j = .ok x → Sound x
  again : ∀ j x, read j = .ok x → read (write x) = .ok x
  others_ignored : ∀ members x, read (.object (members.filter (·.1 ∈ fields))) = .ok x ↔ read (.object members) = .ok x

theorem Json.Decodes.of_denotes {α : Type} {read : Json.Decoder α} {write : α → Json} {fields : List String}
    {Denotes : Json → α → Prop} {Sound : α → Prop} (accepts : ∀ {j x}, read j = .ok x ↔ Denotes j x)
    (sound : ∀ {j x}, Denotes j x → Sound x) (written : ∀ {x}, Sound x → Denotes (write x) x)
    (others : ∀ members x, Denotes (.object (members.filter (·.1 ∈ fields))) x ↔ Denotes (.object members) x) :
    Json.Decodes read write fields Denotes Sound where
  accepts _ _ := accepts
  sound _ _ read := sound (accepts.mp read)
  again _ _ read := accepts.mpr (written (sound (accepts.mp read)))
  others_ignored members x := by rw [accepts, accepts, others]

/-! ## Key spaces -/

namespace KeySpace

def Denotes (j : Json) (space : KeySpace) : Prop := j = .nat space.length

def Sound (space : KeySpace) : Prop := 1 ≤ space.length ∧ space.length ≤ 2147483647

theorem sound (space : KeySpace) : space.Sound := ⟨space.length_pos, space.length_le⟩

theorem ofLength_eq_ok_iff {length : Nat} {space : KeySpace} : ofLength length = .ok space ↔ space.length = length := by
  constructor
  · intro made
    simp only [ofLength] at made
    split at made
    · split at made
      · cases made
        rfl
      · contradiction
    · contradiction
  · rintro rfl
    simp [ofLength, space.length_pos, space.length_le]

theorem ofJson_eq_ok_iff {j : Json} {space : KeySpace} : ofJson j = .ok space ↔ Denotes j space := by
  simp only [ofJson, Json.refine_eq_ok_iff, Json.asNatural_eq_ok_iff, ofLength_eq_ok_iff, Denotes]
  constructor
  · rintro ⟨_, ⟨rfl, -⟩, rfl⟩
    rfl
  · rintro rfl
    exact ⟨space.length, ⟨rfl, space.length_lt_word⟩, rfl⟩

theorem decodes : Json.Decodes ofJson toJson [] Denotes Sound :=
  .of_denotes ofJson_eq_ok_iff (fun {_ space} _ => space.sound) (fun _ => rfl) (by simp [Denotes, Json.nat])

end KeySpace

/-! ## Ranges of keys -/

namespace KeyRange

def fields : List String := ["keyspace", "start", "length"]

def Denotes (j : Json) (r : KeyRange) : Prop :=
  ∃ members, Json.Lists fields j members ∧
    Json.Gives members "keyspace" (.nat r.space.length) ∧ Json.Gives members "start" (.nat r.start) ∧
    Json.Gives members "length" (.nat r.length)

def Sound (r : KeyRange) : Prop := r.space.Sound ∧ r.start < r.space.length ∧ r.length ≤ r.space.length

theorem sound (r : KeyRange) : r.Sound := ⟨r.space.sound, r.start_lt, r.length_le⟩

theorem numbersOfJson_eq_ok_iff {j : Json} {space start length : Nat} :
    numbersOfJson j = .ok (space, start, length) ↔ ∃ members, Json.Lists fields j members ∧
      (Json.Gives members "keyspace" (.nat space) ∧ space < Nat.pow 2 32) ∧
      (Json.Gives members "start" (.nat start) ∧ start < Nat.pow 2 32) ∧
      Json.Gives members "length" (.nat length) ∧ length < Nat.pow 2 32 := by
  rw [numbersOfJson]
  apply Json.record_eq_ok_iff
  intro r _
  simp [Json.Reading.seq_result, Json.Reading.map_result, Json.Record.need_result, Json.asNatural_eq_ok_iff]

theorem made_eq_ok_iff {space start length : Nat} {r : KeyRange} :
    (do (← KeySpace.ofLength space).range start length) = .ok r ↔
      r.space.length = space ∧ r.start = start ∧ r.length = length := by
  cases known : KeySpace.ofLength space with
  | error cause =>
    simp only [bind, Except.bind, reduceCtorEq, false_iff, not_and]
    intro same
    rw [KeySpace.ofLength_eq_ok_iff.mpr same] at known
    contradiction
  | ok s =>
    obtain rfl := KeySpace.ofLength_eq_ok_iff.mp known
    have same : r.space = s ↔ r.space.length = s.length := by
      rw [← KeySpace.ofLength_eq_ok_iff, known, Except.ok.injEq, eq_comm]
    simp only [bind, Except.bind, KeySpace.range_eq_ok_iff, same]

theorem ofJson_eq_ok_iff {j : Json} {r : KeyRange} : ofJson j = .ok r ↔ Denotes j r := by
  simp only [ofJson, Json.refine_eq_ok_iff, Prod.exists, numbersOfJson_eq_ok_iff, made_eq_ok_iff]
  constructor
  · rintro ⟨_, _, _, ⟨members, lists, ⟨space, -⟩, ⟨start, -⟩, length, -⟩, rfl, rfl, rfl⟩
    exact ⟨members, lists, space, start, length⟩
  · rintro ⟨members, lists, space, start, length⟩
    -- the numbers of a range fit their words, as its space does
    have space_lt := r.space.length_lt_word
    have start_lt := Nat.lt_trans r.start_lt space_lt
    have length_lt := Nat.lt_of_le_of_lt r.length_le space_lt
    exact ⟨_, _, _, ⟨members, lists, ⟨space, space_lt⟩, ⟨start, start_lt⟩, length, length_lt⟩, rfl, rfl, rfl⟩

theorem toJson_denotes (r : KeyRange) : Denotes r.toJson r :=
  ⟨_, .object _, by simp [Json.Gives], by simp [Json.Gives], by simp [Json.Gives]⟩

theorem decodes : Json.Decodes ofJson toJson fields Denotes Sound :=
  .of_denotes ofJson_eq_ok_iff (fun {_ r} _ => r.sound) (fun {r} _ => r.toJson_denotes) (by
    simp (disch := decide) only [Denotes, Json.lists_object, exists_eq_left, Json.gives_filter, implies_true])

end KeyRange

/-! ## Ranges of bytes -/

namespace ByteRange

def fields : List String := ["start", "end"]

def Denotes (j : Json) (r : ByteRange) : Prop :=
  ∃ members, Json.Lists fields j members ∧
    Json.Gives members "start" (.word r.first) ∧ Json.Gives members "end" (.word r.stop)

def Sound (r : ByteRange) : Prop := r.first < r.stop

theorem make_eq_ok_iff {first stop : UInt64} {r : ByteRange} :
    make first stop = .ok r ↔ r.first = first ∧ r.stop = stop := by
  constructor
  · intro made
    simp only [make] at made
    split at made
    · cases made
      exact ⟨rfl, rfl⟩
    · contradiction
  · rintro ⟨rfl, rfl⟩
    simp [make, r.first_lt_stop]

theorem boundsOfJson_eq_ok_iff {j : Json} {first stop : UInt64} :
    boundsOfJson j = .ok (first, stop) ↔ ∃ members, Json.Lists fields j members ∧
      Json.Gives members "start" (.word first) ∧ Json.Gives members "end" (.word stop) := by
  rw [boundsOfJson]
  apply Json.record_eq_ok_iff
  intro r _
  simp [Json.Reading.seq_result, Json.Reading.map_result, Json.Record.need_result, Json.asUInt64_eq_ok_iff]

theorem ofJson_eq_ok_iff {j : Json} {r : ByteRange} : ofJson j = .ok r ↔ Denotes j r := by
  simp only [ofJson, Json.refine_eq_ok_iff, Prod.exists, boundsOfJson_eq_ok_iff, make_eq_ok_iff, Denotes]
  constructor
  · rintro ⟨_, _, members, rfl, rfl⟩
    exact members
  · exact fun members => ⟨_, _, members, rfl, rfl⟩

theorem toJson_denotes (r : ByteRange) : Denotes r.toJson r :=
  ⟨_, .object _, by simp [Json.Gives], by simp [Json.Gives]⟩

theorem decodes : Json.Decodes ofJson toJson fields Denotes Sound :=
  .of_denotes ofJson_eq_ok_iff (fun {_ r} _ => r.first_lt_stop) (fun {r} _ => r.toJson_denotes) (by
    simp (disch := decide) only [Denotes, Json.lists_object, exists_eq_left, Json.gives_filter, implies_true])

end ByteRange

/-! ## Addresses -/

namespace NodeAddress

def Denotes (j : Json) (a : NodeAddress) : Prop := ∃ text, j = .text text ∧ parse text = .ok a

theorem ofJson_eq_ok_iff {j : Json} {a : NodeAddress} : ofJson j = .ok a ↔ Denotes j a := by
  simp only [ofJson, Json.refine_eq_ok_iff, Json.asText_eq_ok_iff, Denotes]

theorem toJson_denotes {a : NodeAddress} (legible : a.Legible) : Denotes a.toJson a :=
  ⟨a.text, rfl, parse_text legible⟩

theorem Denotes.legible {j : Json} {a : NodeAddress} : Denotes j a → a.Legible
  | ⟨_, _, read⟩ => legible_of_parse read

theorem decodes : Json.Decodes ofJson toJson [] Denotes Legible :=
  .of_denotes ofJson_eq_ok_iff Denotes.legible toJson_denotes (by simp [Denotes])

end NodeAddress

/-! ## States -/

namespace NodeState

def fields : List String := ["address", "index", "range_active", "range_passive", "disabled", "last_updated"]

/-- The index may be null, and in an object it may be missing. It is none in both cases. -/
def Denotes (j : Json) (s : NodeState) : Prop :=
  ∃ members, Json.Lists fields j members ∧
    (∃ j, Json.Gives members "address" j ∧ NodeAddress.Denotes j s.address) ∧
    (Json.Gives members "index" (.option (fun n => .nat n.toNat) s.index) ∨
      Json.Lacks members "index" ∧ s.index = none) ∧
    (∃ j, Json.Gives members "range_active" j ∧ KeyRange.Denotes j s.active) ∧
    (∃ j, Json.Gives members "range_passive" j ∧ KeyRange.Denotes j s.passive) ∧
    Json.Gives members "disabled" (.bool s.disabled) ∧ Json.Gives members "last_updated" (.word s.lastUpdated)

def Sound (s : NodeState) : Prop := s.address.Legible ∧ s.active.Sound ∧ s.passive.Sound

theorem fields_result {address : Json.Reading NodeAddress} {index : Json.Reading (Option UInt32)}
    {active passive : Json.Reading KeyRange} {disabled : Json.Reading Bool} {lastUpdated : Json.Reading UInt64}
    {s : NodeState} :
    (NodeState.mk <$> address <*> index <*> active <*> passive <*> disabled <*> lastUpdated).result = .ok s ↔
      address.result = .ok s.address ∧ index.result = .ok s.index ∧ active.result = .ok s.active ∧
      passive.result = .ok s.passive ∧ disabled.result = .ok s.disabled ∧ lastUpdated.result = .ok s.lastUpdated := by
  simp only [Json.Reading.seq_result, Json.Reading.map_result]
  constructor
  · rintro ⟨_, _, ⟨_, _, ⟨_, _, ⟨_, _, ⟨_, _, ⟨_, address, rfl⟩, index, rfl⟩, active, rfl⟩, passive, rfl⟩,
      disabled, rfl⟩, updated, rfl⟩
    exact ⟨address, index, active, passive, disabled, updated⟩
  · rintro ⟨address, index, active, passive, disabled, updated⟩
    exact ⟨_, _, ⟨_, _, ⟨_, _, ⟨_, _, ⟨_, _, ⟨_, address, rfl⟩, index, rfl⟩, active, rfl⟩, passive, rfl⟩,
      disabled, rfl⟩, updated, rfl⟩

/-- A list cannot leave the index out, as the fields after it must be given. -/
theorem index_result {r : Json.Record} {index : Option UInt32} {j : Json}
    (positional : r.positional = true → ∃ items, r.members = fields.zip items)
    (given : Json.Gives r.members "range_active" j) :
    (r.needOption "index" Json.asUInt32).result = .ok index ↔
      Json.Gives r.members "index" (.option (fun n => .nat n.toNat) index) ∨
      Json.Lacks r.members "index" ∧ index = none := by
  have written : ∀ j, Json.asOption Json.asUInt32 j = .ok index ↔ j = .option (fun n => .nat n.toNat) index := fun j =>
    Json.asOption_eq_ok_iff (fun _ _ => Json.asUInt32_eq_ok_iff) (by simp [Json.nat])
  cases listed : r.positional with
  | false => simp [Json.Record.needOption_result listed, written]
  | true =>
    obtain ⟨items, members⟩ := positional listed
    have there : ¬ Json.Lacks r.members "index" := by
      rw [members] at given ⊢
      rcases items with _ | ⟨_, _ | ⟨_, _⟩⟩
      · simp [Json.Gives] at given
      · simp [Json.Gives, fields] at given
      · simp [Json.Lacks, fields]
    simp [Json.Record.needOption, listed, Json.Record.need_result, written, there]

theorem ofJson_eq_ok_iff {j : Json} {s : NodeState} : ofJson j = .ok s ↔ Denotes j s := by
  rw [ofJson]
  apply Json.record_eq_ok_iff
  intro r positional
  simp only [fields_result, Json.Record.need_result, NodeAddress.ofJson_eq_ok_iff, KeyRange.ofJson_eq_ok_iff,
    Json.asBool_eq_ok_iff, Json.asUInt64_eq_ok_iff, exists_eq_right]
  constructor
  · rintro ⟨address, index, ⟨j, active, denotes⟩, others⟩
    exact ⟨address, (index_result positional active).mp index, ⟨j, active, denotes⟩, others⟩
  · rintro ⟨address, index, ⟨j, active, denotes⟩, others⟩
    exact ⟨address, (index_result positional active).mpr index, ⟨j, active, denotes⟩, others⟩

theorem toJson_denotes {s : NodeState} (legible : s.address.Legible) : Denotes s.toJson s :=
  ⟨_, .object _, ⟨_, by simp [Json.Gives], NodeAddress.toJson_denotes legible⟩, .inl (by simp [Json.Gives]),
    ⟨_, by simp [Json.Gives], s.active.toJson_denotes⟩, ⟨_, by simp [Json.Gives], s.passive.toJson_denotes⟩,
    by simp [Json.Gives], by simp [Json.Gives]⟩

theorem Denotes.sound {j : Json} {s : NodeState} : Denotes j s → s.Sound
  | ⟨_, _, ⟨_, _, address⟩, _⟩ => ⟨address.legible, s.active.sound, s.passive.sound⟩

theorem decodes : Json.Decodes ofJson toJson fields Denotes Sound :=
  .of_denotes ofJson_eq_ok_iff Denotes.sound (fun sound => toJson_denotes sound.1) (by
    simp (disch := decide) only [Denotes, Json.lists_object, exists_eq_left, Json.gives_filter, Json.lacks_filter,
      implies_true])

theorem Denotes.index_eq_none_iff {members : List (String × Json)} {s : NodeState}
    (denotes : Denotes (.object members) s) :
    s.index = none ↔ Json.Lacks members "index" ∨ Json.Gives members "index" .null := by
  obtain ⟨_, ⟨⟩, -, given | ⟨lacks, none_there⟩, -⟩ := denotes
  · have null : Json.Gives members "index" .null ↔ s.index = none := by
      cases index : s.index with
      | none => simpa [index, Json.option] using given
      | some n =>
        rw [index] at given
        simp only [reduceCtorEq, iff_false]
        intro null
        cases given.unique null
    simp [null, Json.not_lacks_of_gives given]
  · simp [lacks, none_there]

end NodeState

/-! ## Status messages -/

namespace StatusMessage

def fields : List String := ["creation_time", "cluster_last_updated", "local", "remote"]

def Denotes (j : Json) (m : StatusMessage) : Prop :=
  ∃ members, Json.Lists fields j members ∧
    Json.Gives members "creation_time" (.word m.created) ∧
    Json.Gives members "cluster_last_updated" (.word m.clusterUpdated) ∧
    (∃ j, Json.Gives members "local" j ∧ NodeState.Denotes j m.sender) ∧
    ∃ items, Json.Gives members "remote" (.list items) ∧ List.Forall₂ NodeState.Denotes items m.peers

def Sound (m : StatusMessage) : Prop := ∀ s ∈ m.states, s.Sound

theorem fields_result {created clusterUpdated : Json.Reading UInt64} {sender : Json.Reading NodeState}
    {peers : Json.Reading (List NodeState)} {m : StatusMessage} :
    (StatusMessage.mk <$> created <*> clusterUpdated <*> sender <*> peers).result = .ok m ↔
      created.result = .ok m.created ∧ clusterUpdated.result = .ok m.clusterUpdated ∧
      sender.result = .ok m.sender ∧ peers.result = .ok m.peers := by
  simp only [Json.Reading.seq_result, Json.Reading.map_result]
  constructor
  · rintro ⟨_, _, ⟨_, _, ⟨_, _, ⟨_, created, rfl⟩, updated, rfl⟩, sender, rfl⟩, peers, rfl⟩
    exact ⟨created, updated, sender, peers⟩
  · rintro ⟨created, updated, sender, peers⟩
    exact ⟨_, _, ⟨_, _, ⟨_, _, ⟨_, created, rfl⟩, updated, rfl⟩, sender, rfl⟩, peers, rfl⟩

theorem ofJson_eq_ok_iff {j : Json} {m : StatusMessage} : ofJson j = .ok m ↔ Denotes j m := by
  rw [ofJson]
  apply Json.record_eq_ok_iff
  intro r _
  simp only [fields_result, Json.Record.need_result, NodeState.ofJson_eq_ok_iff, Json.asUInt64_eq_ok_iff,
    Json.asList_eq_ok_iff, exists_eq_right]
  constructor
  · rintro ⟨created, updated, sender, _, remote, items, rfl, peers⟩
    exact ⟨created, updated, sender, items, remote, peers⟩
  · rintro ⟨created, updated, sender, items, remote, peers⟩
    exact ⟨created, updated, sender, _, remote, items, rfl, peers⟩

theorem toJson_denotes {m : StatusMessage} (legible : ∀ s ∈ m.states, s.address.Legible) : Denotes m.toJson m := by
  have sender : NodeState.Denotes m.sender.toJson m.sender := NodeState.toJson_denotes (legible _ List.mem_cons_self)
  have peers : List.Forall₂ NodeState.Denotes (m.peers.map NodeState.toJson) m.peers := by
    rw [List.forall₂_map_left_iff, List.forall₂_same]
    exact fun s known => NodeState.toJson_denotes (legible s (List.mem_cons_of_mem _ known))
  exact ⟨_, .object _, by simp [Json.Gives], by simp [Json.Gives], ⟨_, by simp [Json.Gives], sender⟩,
    _, by simp [Json.Gives], peers⟩

theorem Denotes.sound {j : Json} {m : StatusMessage} : Denotes j m → m.Sound
  | ⟨_, _, _, _, ⟨_, _, sender⟩, _, _, peers⟩ => by
    intro s known
    rcases List.mem_cons.mp known with rfl | known
    · exact sender.sound
    · have sound := peers.flip.imp fun _ _ peer => And.intro (NodeState.Denotes.sound peer) peer
      exact ((List.forall₂_and_left _ _).mp sound).1 s known

theorem decodes : Json.Decodes ofJson toJson fields Denotes Sound :=
  .of_denotes ofJson_eq_ok_iff Denotes.sound (fun sound => toJson_denotes fun s known => (sound s known).1) (by
    simp (disch := decide) only [Denotes, Json.lists_object, exists_eq_left, Json.gives_filter, implies_true])

/-- A message with legible addresses is read back from what is written of it. Of what is exchanged nothing decodes that
is not valid, and what decodes does so again once it is written. An index is none if it is missing or null. -/
theorem reads_back_and_decodes_sound :
    (∀ m : StatusMessage, (∀ s ∈ m.states, s.address.Legible) → ofJson m.toJson = .ok m) ∧
    Json.Decodes KeySpace.ofJson KeySpace.toJson [] KeySpace.Denotes KeySpace.Sound ∧
    Json.Decodes KeyRange.ofJson KeyRange.toJson KeyRange.fields KeyRange.Denotes KeyRange.Sound ∧
    Json.Decodes NodeAddress.ofJson NodeAddress.toJson [] NodeAddress.Denotes NodeAddress.Legible ∧
    Json.Decodes ByteRange.ofJson ByteRange.toJson ByteRange.fields ByteRange.Denotes ByteRange.Sound ∧
    Json.Decodes NodeState.ofJson NodeState.toJson NodeState.fields NodeState.Denotes NodeState.Sound ∧
    Json.Decodes ofJson toJson fields Denotes Sound ∧
    ∀ members s, NodeState.ofJson (.object members) = .ok s →
      (s.index = none ↔ Json.Lacks members "index" ∨ Json.Gives members "index" .null) := by
  refine ⟨fun m legible => ?_, KeySpace.decodes, KeyRange.decodes, NodeAddress.decodes, ByteRange.decodes,
    NodeState.decodes, decodes, fun members s read => ?_⟩
  · exact ofJson_eq_ok_iff.mpr (toJson_denotes legible)
  · exact (NodeState.ofJson_eq_ok_iff.mp read).index_eq_none_iff

def awkwardHosts : StatusMessage where
  created := 20
  clusterUpdated := 10
  sender := ⟨⟨"::1", 7000⟩, none, KeySpace.standard.fullRange, KeySpace.standard.emptyRange, false, 10⟩
  peers := [⟨⟨"b ", 0⟩, some 1, KeySpace.standard.emptyRange, KeySpace.standard.fullRange, true, 5⟩]

theorem awkward_hosts_read_back :
    (∀ s ∈ awkwardHosts.states, s.address.Legible) ∧ ofJson awkwardHosts.toJson = .ok awkwardHosts := by
  have legible : ∀ s ∈ awkwardHosts.states, s.address.Legible := by
    simp [states, awkwardHosts, NodeAddress.Legible, Text.isBlank]
  exact ⟨legible, reads_back_and_decodes_sound.1 awkwardHosts legible⟩

end StatusMessage

end ReplicaRing
