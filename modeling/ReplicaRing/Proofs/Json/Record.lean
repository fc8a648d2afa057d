import Mathlib.Data.List.Forall2
import ReplicaRing.Json.Record

/-! What decoders accept. A decoder of a simple value accepts what that value is written as and nothing else. A
record is accepted if each of its fields is given once and decodes; what else is in an object does not matter. -/
namespace ReplicaRing.Json

variable {α β : Type}

/-! ## Simple values -/

theorem refine_eq_ok_iff {decode : Decoder α} {check : α → Except ArgumentError β} {j : Json} {b : β} :
    refine decode check j = .ok b ↔ ∃ a, decode j = .ok a ∧ check a = .ok b := by
  simp only [refine]
  split
  · rename_i fault
    simp [fault]
  · rename_i a decoded
    simp only [decoded, Except.ok.injEq, exists_eq_left']
    split
    · rename_i checked
      rw [checked]
      simp
    · rename_i refused
      simp [refused]

theorem asBool_eq_ok_iff {j : Json} {b : Bool} : asBool j = .ok b ↔ j = .bool b := by
  cases j <;> simp [asBool]

theorem asText_eq_ok_iff {j : Json} {text : String} : asText j = .ok text ↔ j = .text text := by
  cases j <;> simp [asText]

theorem asNatural_eq_ok_iff {bits n : Nat} {j : Json} :
    asNatural bits j = .ok n ↔ j = .nat n ∧ n < Nat.pow 2 bits := by
  cases j with
  | int value =>
    simp only [asNatural, nat, Json.int.injEq, Nat.pow_eq]
    split
    · rename_i within
      simp only [Except.ok.injEq]
      omega
    · rename_i outside
      simp only [reduceCtorEq, false_iff, not_and]
      rintro rfl
      omega
  | null | bool | fraction | text | list | object => simp [asNatural, nat]

theorem map_eq_ok_iff {ε : Type} {f : α → β} {decoded : Except ε α} {b : β} :
    decoded.map f = .ok b ↔ ∃ a, decoded = .ok a ∧ f a = b := by
  cases decoded <;> simp [Except.map]

theorem asUInt32_eq_ok_iff {j : Json} {n : UInt32} : asUInt32 j = .ok n ↔ j = .nat n.toNat := by
  simp only [asUInt32, map_eq_ok_iff, asNatural_eq_ok_iff]
  constructor
  · rintro ⟨value, ⟨rfl, small⟩, rfl⟩
    rw [UInt32.toNat_ofNat_of_lt' small]
  · rintro rfl
    exact ⟨n.toNat, ⟨rfl, n.toNat_lt⟩, UInt32.ofNat_toNat⟩

theorem asUInt64_eq_ok_iff {j : Json} {n : UInt64} : asUInt64 j = .ok n ↔ j = .word n := by
  simp only [asUInt64, map_eq_ok_iff, asNatural_eq_ok_iff, word]
  constructor
  · rintro ⟨value, ⟨rfl, small⟩, rfl⟩
    rw [UInt64.toNat_ofNat_of_lt' small]
  · rintro rfl
    exact ⟨n.toNat, ⟨rfl, n.toNat_lt⟩, UInt64.ofNat_toNat⟩

theorem asOption_eq_ok_iff {decode : Decoder α} {write : α → Json} (reads : ∀ j a, decode j = .ok a ↔ j = write a)
    (filled : ∀ a, write a ≠ .null) {j : Json} {value : Option α} :
    asOption decode j = .ok value ↔ j = .option write value := by
  cases value with
  | none =>
    cases j <;> simp [asOption, option, map_eq_ok_iff]
  | some a =>
    have decoded : (decode j).map some = .ok (some a) ↔ j = write a := by simp [map_eq_ok_iff, reads]
    cases j with
    | null => simpa [asOption, option] using (filled a).symm
    | bool | int | fraction | text | list | object => exact decoded

theorem mapM_eq_ok_iff {decode : Decoder α} {items : List Json} {values : List α} :
    items.mapM decode = .ok values ↔ List.Forall₂ (fun j a => decode j = .ok a) items values := by
  induction items generalizing values with
  | nil => cases values <;> simp [pure, Except.pure]
  | cons j items ih =>
    rw [List.mapM_cons]
    cases first : decode j with
    | error fault => cases values <;> simp [bind, Except.bind, first]
    | ok a =>
      cases rest : items.mapM decode with
      | error fault => cases values <;> simp [bind, Except.bind, ← ih, rest]
      | ok more => cases values <;> simp [bind, Except.bind, pure, Except.pure, ← ih, rest, first]

theorem asList_eq_ok_iff {decode : Decoder α} {j : Json} {values : List α} :
    asList decode j = .ok values ↔
      ∃ items, j = .list items ∧ List.Forall₂ (fun j a => decode j = .ok a) items values := by
  cases j <;> simp [asList, mapM_eq_ok_iff]

/-! ## Records -/

/-- The members of a record: those of an object, or the items of a list under the names of the fields, in their
order. A list has no more items than there are fields. -/
inductive Lists (fields : List String) : Json → List (String × Json) → Prop where
  | object (members : List (String × Json)) : Lists fields (.object members) members
  | list (items : List Json) (fit : items.length ≤ fields.length) : Lists fields (.list items) (fields.zip items)

def Gives (members : List (String × Json)) (name : String) (value : Json) : Prop :=
  (members.filter (·.1 = name)).map (·.2) = [value]

def Lacks (members : List (String × Json)) (name : String) : Prop := ∀ member ∈ members, member.1 ≠ name

theorem lists_object {fields : List String} {members listed : List (String × Json)} :
    Lists fields (.object members) listed ↔ listed = members :=
  ⟨fun | .object _ => rfl, fun | rfl => .object _⟩

section Names

variable {members : List (String × Json)} {names : List String} {name : String}

theorem gives_filter {value : Json} (known : name ∈ names) :
    Gives (members.filter (·.1 ∈ names)) name value ↔ Gives members name value := by
  have kept : (members.filter (·.1 ∈ names)).filter (·.1 = name) = members.filter (·.1 = name) := by
    rw [List.filter_filter]
    refine List.filter_congr fun member _ => ?_
    by_cases hit : member.1 = name <;> simp [hit, known]
  rw [Gives, Gives, kept]

theorem lacks_filter (known : name ∈ names) : Lacks (members.filter (·.1 ∈ names)) name ↔ Lacks members name := by
  simp only [Lacks, List.mem_filter, decide_eq_true_eq, and_imp]
  exact forall₂_congr fun member _ => ⟨fun other same => other (same ▸ known) same, fun other _ => other⟩

theorem Gives.unique {value other : Json} (given : Gives members name value) (again : Gives members name other) :
    value = other := by
  rw [Gives, given] at again
  simpa using again

theorem not_lacks_of_gives {value : Json} (given : Gives members name value) : ¬ Lacks members name := by
  intro lacks
  have none_named : members.filter (·.1 = name) = [] := by simpa [Lacks] using lacks
  simp [Gives, none_named] at given

end Names

section Readings

theorem Reading.seq_result {f : Reading (α → β)} {x : Reading α} {b : β} :
    (f <*> x).result = .ok b ↔ ∃ g a, f.result = .ok g ∧ x.result = .ok a ∧ g a = b := by
  change (f.apply x).result = .ok b ↔ _
  unfold Reading.apply
  split <;> simp_all

theorem Reading.map_result {f : α → β} {x : Reading α} {b : β} :
    (f <$> x).result = .ok b ↔ ∃ a, x.result = .ok a ∧ f a = b := by
  change ((⟨.ok f⟩ : Reading (α → β)) <*> x).result = .ok b ↔ _
  simp [Reading.seq_result]

theorem close_eq_ok_iff {r : Record} {reading : Reading α} {a : α} :
    r.close reading = .ok a ↔ r.excess = false ∧ reading.result = .ok a := by
  unfold Record.close
  split
  · rename_i failed
    simp [failed]
  · rename_i read
    cases excess : r.excess <;> simp [read]

variable {r : Record} {name : String} {decode : Decoder α}

theorem Record.named_values (r : Record) (name : String) :
    (r.named name).map (·.2) = (r.members.filter (·.1 = name)).map (·.2) := by
  suffices from_place : ∀ (members : List (String × Json)) (first : Nat),
      ((members.zipIdx first).filterMap fun entry =>
        if entry.1.1 = name then some (entry.2, entry.1.2) else none).map (·.2) =
      (members.filter (·.1 = name)).map (·.2) from from_place r.members 0
  intro members
  induction members with
  | nil => simp
  | cons member rest ih =>
    intro first
    by_cases hit : member.1 = name <;> simp [hit, ih]

/-- A field reads as no value if it is missing, as its value if it is given once, and as nothing else. -/
theorem Record.read_result {value : Option α} :
    (r.read name decode).result = .ok value ↔
      (Lacks r.members name ∧ value = none) ∨ ∃ j a, Gives r.members name j ∧ decode j = .ok a ∧ value = some a := by
  have values := r.named_values name
  have lacks : Lacks r.members name ↔ r.named name = [] := by
    rw [← List.map_eq_nil_iff, values]
    simp [Lacks]
  simp only [lacks, Gives, ← values, Record.read]
  cases found : r.named name with
  | nil => simp [eq_comm (b := value)]
  | cons first more =>
    obtain ⟨place, j⟩ := first
    cases decoded : decode j with
    | error fault => simp +contextual [decoded]
    | ok a => cases more <;> simp [decoded, eq_comm (b := value)]

theorem Record.orElse_result {default : Except (Nat × Fault) α} {reading : Reading (Option α)} {a : α} :
    (orElse default reading).result = .ok a ↔
      reading.result = .ok (some a) ∨ reading.result = .ok none ∧ default = .ok a := by
  simp only [orElse]
  split <;> simp [*]

theorem Record.need_result {a : α} : (r.need name decode).result = .ok a ↔
    ∃ value, Gives r.members name value ∧ decode value = .ok a := by
  simp [Record.need, Record.orElse_result, Record.read_result]

theorem Record.needOption_result {value : Option α} (named : r.positional = false) :
    (r.needOption name decode).result = .ok value ↔
      (∃ j, Gives r.members name j ∧ asOption decode j = .ok value) ∨ Lacks r.members name ∧ value = none := by
  simp [Record.needOption, named, Record.orElse_result, Record.read_result, eq_comm (a := none)]

theorem Record.readOr_result {default a : α} : (r.readOr name decode default).result = .ok a ↔
    (∃ value, Gives r.members name value ∧ decode value = .ok a) ∨ Lacks r.members name ∧ a = default := by
  simp [Record.readOr, Record.orElse_result, Record.read_result, eq_comm (a := a)]

theorem record_eq_ok_iff {fields : List String} {reading : Record → Reading α} {j : Json} {a : α}
    {accepts : List (String × Json) → Prop}
    (agrees : ∀ r, (r.positional = true → ∃ items, r.members = fields.zip items) →
      ((reading r).result = .ok a ↔ accepts r.members)) :
    (do let record ← asRecord fields j; record.close (reading record)) = .ok a ↔
      ∃ members, Lists fields j members ∧ accepts members := by
  cases j with
  | object members =>
    simp only [asRecord, bind, Except.bind, close_eq_ok_iff, true_and]
    rw [agrees _ (by simp)]
    constructor
    · exact fun accepted => ⟨members, .object members, accepted⟩
    · rintro ⟨_, ⟨⟩, accepted⟩
      exact accepted
  | list items =>
    simp only [asRecord, bind, Except.bind, close_eq_ok_iff, decide_eq_false_iff_not, Nat.not_lt]
    rw [agrees _ (fun _ => ⟨items, rfl⟩)]
    constructor
    · exact fun ⟨fit, accepted⟩ => ⟨_, .list items fit, accepted⟩
    · rintro ⟨_, ⟨⟩, accepted⟩
      exact ⟨‹_›, accepted⟩
  | null | bool | int | fraction | text =>
    simp only [asRecord, bind, Except.bind, reduceCtorEq, false_iff, not_exists, not_and]
    rintro _ ⟨⟩

end Readings

end ReplicaRing.Json
