import ReplicaRing.Node.Address
import ReplicaRing.Proofs.Text.Parts

/-! The text of an address reads back. Reading trims the text and splits it at its last colon: colons and blanks
inside a host are kept, and only an empty host, or one that starts with a blank, does not come back. Whether or not it
can be read back, the text is of no other address. -/
namespace ReplicaRing

namespace NodeAddress

def Legible (a : NodeAddress) : Prop := ∃ c ∈ a.host.toList.head?, Text.isBlank c = false

theorem toList_text (a : NodeAddress) : a.text.toList = a.host.toList ++ ':' :: Text.decimal a.port.toNat := by
  simp [text, Text.decimal, toString]

theorem legible_of_parse {text : String} {a : NodeAddress} (read : parse text = .ok a) : a.Legible := by
  simp only [parse] at read
  split at read
  · contradiction
  · rename_i host port parts
    split at read
    · contradiction
    · rename_i filled
      split at read
      · contradiction
      · cases read
        obtain ⟨trimmed, -⟩ := Text.splitLast_eq_some_iff.mp parts
        cases host with
        | nil => simp at filled
        | cons c rest => exact ⟨c, by simp, Text.not_blank_head_trim trimmed⟩

theorem parse_text {a : NodeAddress} (legible : a.Legible) : parse a.text = .ok a := by
  obtain ⟨c, first, clear⟩ := legible
  have filled : a.host.toList ≠ [] := by
    intro empty
    simp [empty] at first
  have trimmed : Text.trim a.text.toList = a.text.toList := by
    refine (Text.Trims.self ?_ ?_).trim_eq
    · intro d start
      rw [toList_text, List.head?_append_of_ne_nil _ filled] at start
      obtain rfl : c = d := Option.mem_unique first start
      exact clear
    · intro d last
      rw [toList_text, List.append_cons, List.getLast?_append_of_ne_nil _ (Text.decimal_ne_nil _)] at last
      exact Text.isBlank_of_isDigit (Text.isDigit_of_mem_decimal (List.mem_of_mem_getLast? last))
  have parts : Text.splitLast ':' (Text.trim a.text.toList) = some (a.host.toList, Text.decimal a.port.toNat) := by
    rw [trimmed, toList_text]
    exact Text.splitLast_append _ _ (Text.not_mem_decimal (by decide))
  simp [parse, parts, filled, Text.natural?_decimal a.port.toNat_lt]

theorem parse_text_iff {a : NodeAddress} : parse a.text = .ok a ↔ a.Legible := ⟨legible_of_parse, parse_text⟩

theorem legible_iff {a : NodeAddress} :
    a.Legible ↔ a.host ≠ "" ∧ ∀ c ∈ a.host.toList.head?, Text.isBlank c = false := by
  rw [Legible, Ne, ← String.toList_eq_nil_iff]
  cases a.host.toList <;> simp

/-- A port has no colon, so what stands before the last colon is the host. -/
theorem text_inj {a b : NodeAddress} : a.text = b.text ↔ a = b := by
  constructor
  · intro same
    have parts (a : NodeAddress) :
        Text.splitLast ':' a.text.toList = some (a.host.toList, Text.decimal a.port.toNat) := by
      rw [toList_text]
      exact Text.splitLast_append _ _ (Text.not_mem_decimal (by decide))
    have halves := (parts a).symm.trans ((congrArg (fun text => Text.splitLast ':' text.toList) same).trans (parts b))
    obtain ⟨host, port⟩ := Prod.mk.inj (Option.some.inj halves)
    rw [NodeAddress.mk.injEq]
    exact ⟨String.toList_inj.mp host, UInt16.toNat_inj.mp (Text.decimal_injective port)⟩
  · exact congrArg text

/-- Address text. An address reads back from its text just if its host is not empty and does not start with a blank;
all that is ever read does so, and reading, writing and reading again is reading once, where it fails too; and no two
addresses have the same text. -/
theorem addresses_read_back :
    (∀ (host : String) (port : UInt16), parse (text ⟨host, port⟩) = .ok ⟨host, port⟩ ↔
      host ≠ "" ∧ ∀ c ∈ host.toList.head?, Text.isBlank c = false) ∧
    (∀ written a, parse written = .ok a → a.host ≠ "" ∧ ∀ c ∈ a.host.toList.head?, Text.isBlank c = false) ∧
    (∀ written, ((parse written).bind fun a => parse a.text) = parse written) ∧
    ∀ a b : NodeAddress, a.text = b.text ↔ a = b := by
  refine ⟨fun host port => parse_text_iff.trans legible_iff, fun written a read => ?_, fun written => ?_,
    fun a b => text_inj⟩
  · exact legible_iff.mp (legible_of_parse read)
  · cases read : parse written with
    | error e => rfl
    | ok a => exact parse_text (legible_of_parse read)

/-- A host with colons and with a blank inside, read from a text with blanks around it and a port in a form of its
own. -/
theorem colons_read_back :
    parse " [::1] b:+080\n" = .ok ⟨"[::1] b", 80⟩ ∧ (⟨"[::1] b", 80⟩ : NodeAddress).host ≠ "" ∧
      parse (text ⟨"[::1] b", 80⟩) = .ok ⟨"[::1] b", 80⟩ := by
  have read : parse " [::1] b:+080\n" = .ok ⟨"[::1] b", 80⟩ := by decide
  obtain ⟨back, legible, -, -⟩ := addresses_read_back
  have found := legible _ _ read
  exact ⟨read, found.1, (back _ _).mpr found⟩

end NodeAddress
end ReplicaRing
