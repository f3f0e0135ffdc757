import Mathlib.Tactic.SplitIfs
import ShardQuery.Json.Basic

/-!
# Texts as Octets

The octets of a text are those of its characters one after the other. A character of ASCII
is one octet, and the octets of all other characters are beyond ASCII, so whoever looks for
a character of ASCII among octets finds nothing else.

## Main results

* `utf8Octets_eq`: the octets of a text, character by character.
* `fromUTF8?_utf8Octets`: the octets of a text are those of no other text.
-/

namespace ShardQuery

/-- The octets of characters in UTF-8, as a list over the characters: the scanners work octet by
octet, and the proofs about them go by induction on the characters. -/
def charOctets (chars : List Char) : List UInt8 :=
  chars.flatMap String.utf8EncodeChar

/-- No characters are no octets. -/
@[simp] theorem charOctets_nil : charOctets [] = [] := rfl

/-- The octets of the first character come first, which is how a scanner that consumes octets meets
them. -/
@[simp] theorem charOctets_cons (c : Char) (chars : List Char) :
    charOctets (c :: chars) = String.utf8EncodeChar c ++ charOctets chars := rfl

/-- Octets of a concatenation, so that the text of a document can be taken apart at its punctuation.
-/
@[simp] theorem charOctets_append (first second : List Char) :
    charOctets (first ++ second) = charOctets first ++ charOctets second :=
  List.flatMap_append

/-- The octets of a text built from characters are the octets of the characters, without a detour
through positions in the text. -/
theorem utf8Octets_ofList (chars : List Char) :
    utf8Octets (String.ofList chars) = charOctets chars := by
  rw [utf8Octets, String.toByteArray_ofList, List.utf8Encode, charOctets, List.data_toByteArray]

/-- The octets of a text are those of its characters, one after the other. Every statement about
`utf8Octets` is proved through this form. -/
theorem utf8Octets_eq (s : String) : utf8Octets s = charOctets s.toList := by
  rw [← utf8Octets_ofList, String.ofList_toList]

/-- Octets of two texts in a row are the octets of the first followed by the octets of the second.
-/
theorem utf8Octets_append (s t : String) :
    utf8Octets (s ++ t) = utf8Octets s ++ utf8Octets t := by
  rw [utf8Octets_eq, String.toList_append, charOctets_append, ← utf8Octets_eq, ← utf8Octets_eq]

/-- The octets of a text are those of no other text. -/
theorem fromUTF8?_utf8Octets (s : String) :
    String.fromUTF8? ⟨(utf8Octets s).toArray⟩ = some s := by
  have hbytes : (⟨(utf8Octets s).toArray⟩ : ByteArray) = s.toByteArray := rfl
  rw [hbytes, String.fromUTF8?, dif_pos s.isValidUTF8]
  rfl

/-! ### Characters -/

/-- A character of ASCII is one octet, of the same number. All the punctuation, digits and escapes
of a document are of this kind. -/
theorem utf8EncodeChar_of_ascii {c : Char} (h : c.toNat < 0x80) :
    String.utf8EncodeChar c = [UInt8.ofNat c.toNat] :=
  if_pos (Nat.le_of_lt_succ h)

/-- The octets of a character beyond ASCII are no characters of ASCII. -/
theorem le_of_mem_utf8EncodeChar {c : Char} (h : 0x80 ≤ c.toNat) {b : UInt8}
    (hb : b ∈ String.utf8EncodeChar c) : 0x80 ≤ b := by
  have hval : c.toNat = c.val.toNat := rfl
  have hle (n : Nat) (hlow : 0x80 ≤ n) (hn : n < 256) : (0x80 : UInt8) ≤ UInt8.ofNat n := by
    rw [UInt8.le_iff_toNat_le, UInt8.toNat_ofNat_of_lt' hn]
    exact hlow
  rw [String.utf8EncodeChar] at hb
  split_ifs at hb with h1 h2 h3
  · omega
  all_goals
    simp only [List.mem_cons, List.not_mem_nil, or_false] at hb
  · rcases hb with rfl | rfl <;> exact hle _ (by omega) (by omega)
  · rcases hb with rfl | rfl | rfl <;> exact hle _ (by omega) (by omega)
  · rcases hb with rfl | rfl | rfl | rfl <;> exact hle _ (by omega) (by omega)

end ShardQuery
