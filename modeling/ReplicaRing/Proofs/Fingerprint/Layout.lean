import Mathlib.Logic.Function.Basic
import Mathlib.Tactic.SplitIfs
import ReplicaRing.Node.State

/-! Layouts are unambiguous: no value's bytes are the beginning of another's. So layouts can be put one after the other
without any lengths, and are read apart again part by part. -/
namespace ReplicaRing.Fingerprint

/-- Bytes that begin with a value tell which one, and where it ends. -/
class Unambiguous (α : Type) [Layout α] : Prop where
  apart {x y : α} {after after' : List UInt8} : bytes x ++ after = bytes y ++ after' → x = y ∧ after = after'

theorem bytes_injective {α : Type} [Layout α] [Unambiguous α] {x y : α} (same : bytes x = bytes y) : x = y :=
  (Unambiguous.apart (congrArg (· ++ []) same)).1

/-! ## Numbers -/

section Numbers

variable {width n m : Nat} {after after' : List UInt8}

theorem littleEndian_succ (width n : Nat) :
    littleEndian (width + 1) n = UInt8.ofNat n :: littleEndian width (n / 256) := by
  rw [littleEndian, littleEndian, List.range_succ_eq_map, List.map_cons, List.map_map]
  refine congrArg₂ List.cons (by simp) (List.map_congr_left fun i _ => congrArg UInt8.ofNat ?_)
  show n / (Nat.pow 256 i * 256) = n / 256 / Nat.pow 256 i
  rw [Nat.mul_comm, Nat.div_div_eq_div_mul]

theorem ofNat_eq_ofNat_iff : UInt8.ofNat n = UInt8.ofNat m ↔ n % 256 = m % 256 := by
  rw [← UInt8.toNat_inj, UInt8.toNat_ofNat', UInt8.toNat_ofNat']

/-- Numbers that fit the width are told apart byte by byte, the lowest one first. -/
theorem littleEndian_apart (fits : n < Nat.pow 256 width) (fits' : m < Nat.pow 256 width)
    (same : littleEndian width n ++ after = littleEndian width m ++ after') : n = m ∧ after = after' := by
  induction width generalizing n m with
  | zero => exact ⟨(Nat.lt_one_iff.mp fits).trans (Nat.lt_one_iff.mp fits').symm, same⟩
  | succ width ih =>
    rw [littleEndian_succ, littleEndian_succ, List.cons_append, List.cons_append, List.cons.injEq,
      ofNat_eq_ofNat_iff] at same
    obtain ⟨lowest, others⟩ := same
    obtain ⟨high, rest⟩ := ih (Nat.div_lt_of_lt_mul (Nat.mul_comm _ _ ▸ fits))
      (Nat.div_lt_of_lt_mul (Nat.mul_comm _ _ ▸ fits')) others
    exact ⟨by omega, rest⟩

/-- Whatever is laid out as a number of its own that fits the width. -/
theorem unambiguous_of_number {α : Type} [Layout α] {number : α → Nat} (width : Nat)
    (layout : ∀ x, bytes x = littleEndian width (number x)) (fits : ∀ x, number x < Nat.pow 256 width)
    (injective : number.Injective) : Unambiguous α where
  apart {x y} _ _ same := by
    rw [layout, layout] at same
    obtain ⟨equal, rest⟩ := littleEndian_apart (fits x) (fits y) same
    exact ⟨injective equal, rest⟩

instance : Unambiguous Bool :=
  have injective : Bool.toNat.Injective := fun b b' same => by cases b <;> cases b' <;> trivial
  unambiguous_of_number 1 (by decide) (by decide) injective

instance : Unambiguous UInt16 :=
  unambiguous_of_number 2 (fun _ => rfl) UInt16.toNat_lt fun _ _ => UInt16.toNat_inj.mp

instance : Unambiguous UInt32 :=
  unambiguous_of_number 4 (fun _ => rfl) UInt32.toNat_lt fun _ _ => UInt32.toNat_inj.mp

instance : Unambiguous UInt64 :=
  unambiguous_of_number 8 (fun _ => rfl) UInt64.toNat_lt fun _ _ => UInt64.toNat_inj.mp

theorem bytes_some {α : Type} [Layout α] (value : α) : bytes (some value) = littleEndian 8 1 ++ bytes value := rfl

instance {α : Type} [Layout α] [Unambiguous α] : Unambiguous (Option α) where
  apart {x y} after after' same := by
    have zero : 0 < Nat.pow 256 8 := by decide
    have one : 1 < Nat.pow 256 8 := by decide
    cases x with
    | none =>
      cases y with
      | none => exact ⟨rfl, (littleEndian_apart zero zero same).2⟩
      | some y =>
        rw [bytes_some, List.append_assoc] at same
        exact absurd (littleEndian_apart zero one same).1 Nat.zero_ne_one
    | some x =>
      rw [bytes_some, List.append_assoc] at same
      cases y with
      | none => exact absurd (littleEndian_apart one zero same).1 Nat.one_ne_zero
      | some y =>
        rw [bytes_some, List.append_assoc] at same
        obtain ⟨equal, rest⟩ := Unambiguous.apart (littleEndian_apart one one same).2
        exact ⟨congrArg some equal, rest⟩

end Numbers

/-! ## Texts -/

section Texts

variable {first second after after' : List UInt8} {byte : UInt8}

/-- What ends with a byte that is not in it ends where that byte is first. -/
theorem terminated_apart (free : byte ∉ first) (free' : byte ∉ second)
    (same : first ++ byte :: after = second ++ byte :: after') : first = second ∧ after = after' := by
  -- were one of the two longer, it would have the byte where the other one ends
  induction first generalizing second with
  | nil =>
    cases second with
    | nil => exact ⟨rfl, (List.cons.inj same).2⟩
    | cons head tail => exact absurd ((List.cons.inj same).1 ▸ List.mem_cons_self) free'
  | cons head tail ih =>
    cases second with
    | nil => exact absurd ((List.cons.inj same).1 ▸ List.mem_cons_self) free
    | cons head' tail' =>
      obtain ⟨rfl, tails⟩ := List.cons.inj same
      obtain ⟨rfl, rest⟩ := ih (List.not_mem_of_not_mem_cons free) (List.not_mem_of_not_mem_cons free') tails
      exact ⟨rfl, rest⟩

theorem toList_loop (bytes : ByteArray) (i : Nat) (taken : List UInt8) :
    ByteArray.toList.loop bytes i taken = taken.reverse ++ bytes.data.toList.drop i := by
  fun_induction ByteArray.toList.loop bytes i taken with
  | case1 i taken inside ih =>
    have next : bytes.data.toList.drop i = bytes.get! i :: bytes.data.toList.drop (i + 1) := by
      simpa [ByteArray.get!, inside] using List.drop_eq_getElem_cons (l := bytes.data.toList) inside
    rw [ih, next, List.reverse_cons, List.append_assoc, List.singleton_append]
  | case2 i taken outside =>
    rw [List.drop_eq_nil_of_le (Nat.le_of_not_lt outside), List.append_nil]

theorem toList_eq_data (bytes : ByteArray) : bytes.toList = bytes.data.toList := toList_loop bytes 0 []

/-- No byte of a character's UTF-8 form exceeds 0xf7, the greatest first byte that there is room for. -/
theorem utf8EncodeChar_le (c : Char) : ∀ byte ∈ String.utf8EncodeChar c, byte.toNat ≤ 0xf7 := by
  unfold String.utf8EncodeChar
  dsimp only
  split_ifs
  all_goals
    simp only [List.forall_mem_cons, List.not_mem_nil, false_imp_iff, implies_true, and_true, UInt8.toNat_ofNat']
    omega

theorem utf8_toList (text : String) : text.toUTF8.toList = text.toList.flatMap String.utf8EncodeChar := by
  rw [toList_eq_data, String.toUTF8_eq_toByteArray, ← String.utf8Encode_toList, List.utf8Encode,
    List.toList_data_toByteArray]

theorem ff_not_mem_utf8 (text : String) : 0xff ∉ text.toUTF8.toList := by
  rw [utf8_toList, List.mem_flatMap]
  rintro ⟨c, -, member⟩
  exact absurd (utf8EncodeChar_le c 0xff member) (by decide)

theorem utf8_injective {text text' : String} (same : text.toUTF8.toList = text'.toUTF8.toList) : text = text' := by
  rw [toList_eq_data, toList_eq_data, Array.toList_inj, ← ByteArray.ext_iff] at same
  exact String.toByteArray_inj.mp same

theorem bytes_text (text : String) : bytes text = text.toUTF8.toList ++ [0xff] := rfl

instance : Unambiguous String where
  apart {text text'} after after' same := by
    rw [bytes_text, bytes_text, List.append_assoc, List.append_assoc] at same
    obtain ⟨equal, rest⟩ := terminated_apart (ff_not_mem_utf8 text) (ff_not_mem_utf8 text') same
    exact ⟨utf8_injective equal, rest⟩

end Texts

/-! ## Records -/

instance : Unambiguous KeySpace :=
  unambiguous_of_number 4 (fun _ => rfl) KeySpace.length_lt_word fun _ _ same => KeySpace.mk.injEq .. ▸ same

theorem bytes_range (r : KeyRange) :
    bytes r = bytes r.space ++ littleEndian 4 r.start ++ littleEndian 4 r.length := rfl

instance : Unambiguous KeyRange where
  apart {r r'} after after' same := by
    have start_fits (r : KeyRange) : r.start < Nat.pow 256 4 := Nat.lt_trans r.start_lt r.space.length_lt_word
    have length_fits (r : KeyRange) : r.length < Nat.pow 256 4 :=
      Nat.lt_of_le_of_lt r.length_le r.space.length_lt_word
    simp only [bytes_range, List.append_assoc] at same
    obtain ⟨space, same⟩ := Unambiguous.apart same
    obtain ⟨start, same⟩ := littleEndian_apart (start_fits r) (start_fits r') same
    obtain ⟨length, rest⟩ := littleEndian_apart (length_fits r) (length_fits r') same
    exact ⟨KeyRange.mk.injEq .. ▸ ⟨space, start, length⟩, rest⟩

theorem bytes_address (a : NodeAddress) : bytes a = bytes a.host ++ bytes a.port := rfl

instance : Unambiguous NodeAddress where
  apart {a b} after after' same := by
    simp only [bytes_address, List.append_assoc] at same
    obtain ⟨host, same⟩ := Unambiguous.apart same
    obtain ⟨port, rest⟩ := Unambiguous.apart same
    exact ⟨NodeAddress.mk.injEq .. ▸ ⟨host, port⟩, rest⟩

theorem bytes_state (s : NodeState) : bytes s = bytes s.address ++ bytes s.index ++ bytes s.active ++
    bytes s.passive ++ bytes s.disabled ++ bytes s.lastUpdated := rfl

instance : Unambiguous NodeState where
  apart {s s'} after after' same := by
    simp only [bytes_state, List.append_assoc] at same
    obtain ⟨address, same⟩ := Unambiguous.apart same
    obtain ⟨index, same⟩ := Unambiguous.apart same
    obtain ⟨active, same⟩ := Unambiguous.apart same
    obtain ⟨passive, same⟩ := Unambiguous.apart same
    obtain ⟨disabled, same⟩ := Unambiguous.apart same
    obtain ⟨updated, rest⟩ := Unambiguous.apart same
    exact ⟨NodeState.mk.injEq .. ▸ ⟨address, index, active, passive, disabled, updated⟩, rest⟩

end ReplicaRing.Fingerprint
