import ShardQuery.Json.Token
import ShardQuery.Proofs.Text.Octets

/-!
# Strings Read Back

Every character of a string is written in one of three ways: as itself, behind a backslash, or
by the four digits of its code. Whatever follows it, the scanner gives back the pieces of
the character first, and the pieces denote the octets of the character.

## Main results

* `Json.scanText?_quote`: a string literal is read up to its closing quote.
* `Json.decodeText?_pieces`: its pieces denote the string.
-/

namespace ShardQuery.Json

/-- The pieces as which a character of a string literal is read. -/
def piecesOf (c : Char) : List TextPiece :=
  if c.toNat < 0x20 ∧ c ≠ '\n' ∧ c ≠ '\r' ∧ c ≠ '\t' ∧ c ≠ '\x08' ∧ c ≠ '\x0c' then
    [.unit c.toNat]
  else (String.utf8EncodeChar c).map .octet

/-! ### Single pieces -/

/-- A scanned text with pieces before it, which is how every step of the scanner extends what the
rest of the text gives. -/
def withPieces (pieces : List TextPiece) (scanned : List TextPiece × List UInt8) :
    List TextPiece × List UInt8 :=
  (pieces ++ scanned.1, scanned.2)

/-- One step over an octet that stands for itself: neither the quote that ends the text, nor the
slash of an escape, nor a control character, which the scanner refuses. -/
theorem scanText?_octet {b : UInt8} (hquote : b ≠ 0x22) (hslash : b ≠ 0x5c) (hcontrol : ¬b < 0x20)
    (rest : List UInt8) :
    scanText? (b :: rest) = (scanText? rest).map (withPieces [.octet b]) := by
  rw [scanText?]
  · rw [if_neg (not_or.2 ⟨hcontrol, hslash⟩)]
    cases scanText? rest <;> rfl
  · exact hquote
  · exact fun _ _ _ _ _ heq _ => hslash heq
  · exact fun _ _ heq _ => hslash heq

/-- One step over an escape of two characters, such as `\n`: the letter after the slash denotes one
octet. -/
theorem scanText?_escape {letter b : UInt8} (hletter : letter ≠ 0x75)
    (h : simpleEscape? letter = some b) (rest : List UInt8) :
    scanText? (0x5c :: letter :: rest) = (scanText? rest).map (withPieces [.octet b]) := by
  rw [scanText?]
  · rw [h]
    cases scanText? rest <;> rfl
  · rintro a b c d rest' rfl
    exact absurd rfl hletter

/-- One step over an escape with four hexadecimal digits, which denotes a unit of UTF-16 and is
decoded only after the text has been scanned. -/
theorem scanText?_unit {a b c d : UInt8} {value : Nat} (h : hexUnit? a b c d = some value)
    (rest : List UInt8) :
    scanText? (0x5c :: 0x75 :: a :: b :: c :: d :: rest) =
      (scanText? rest).map (withPieces [.unit value]) := by
  rw [scanText?, h]
  cases scanText? rest <;> rfl

/-- Octets that stand for themselves, in one step: the scanner copies all of them in front of what
it makes of the rest. -/
theorem scanText?_octets {octets : List UInt8}
    (h : ∀ b ∈ octets, b ≠ 0x22 ∧ b ≠ 0x5c ∧ ¬b < 0x20) (rest : List UInt8) :
    scanText? (octets ++ rest) = (scanText? rest).map (withPieces (octets.map .octet)) := by
  induction octets with
  | nil =>
      change _ = Option.map id _
      rw [Option.map_id]
      rfl
  | cons b octets ih =>
      obtain ⟨⟨hquote, hslash, hcontrol⟩, hoctets⟩ := List.forall_mem_cons.1 h
      rw [List.cons_append, scanText?_octet hquote hslash hcontrol, ih hoctets, Option.map_map]
      rfl

/-! ### Characters -/

/-- The octets of a character that stands for itself neither end a string literal nor escape
anything. -/
theorem octets_of_plain {c : Char} (hquote : c ≠ '"') (hslash : c ≠ '\\')
    (hcontrol : 0x20 ≤ c.toNat) :
    ∀ b ∈ String.utf8EncodeChar c, b ≠ 0x22 ∧ b ≠ 0x5c ∧ ¬b < 0x20 := by
  intro b hb
  rcases Nat.lt_or_ge c.toNat 0x80 with hlt | hge
  · rw [utf8EncodeChar_of_ascii hlt, List.mem_singleton] at hb
    have hnat : b.toNat = c.toNat := by
      rw [hb, UInt8.toNat_ofNat_of_lt' (Nat.lt_trans hlt (by decide))]
    have hne (d : Char) (hd : c ≠ d) : c.toNat ≠ d.toNat := fun heq => hd (Char.toNat_inj.1 heq)
    refine ⟨?_, ?_, ?_⟩
    · rintro rfl
      exact hne _ hquote hnat.symm
    · rintro rfl
      exact hne _ hslash hnat.symm
    · rw [UInt8.lt_iff_toNat_lt, hnat]
      exact Nat.not_lt.2 hcontrol
  · have hle := le_of_mem_utf8EncodeChar hge hb
    rw [UInt8.le_iff_toNat_le] at hle
    refine ⟨?_, ?_, ?_⟩
    · rintro rfl
      exact absurd hle (by decide)
    · rintro rfl
      exact absurd hle (by decide)
    · rw [UInt8.lt_iff_toNat_lt]
      exact Nat.not_lt.2 (Nat.le_trans (by decide) hle)

/-- The octet of a hexadecimal digit, as the writer puts it into an escape with four digits. -/
def hexOctet (n : Nat) : UInt8 :=
  UInt8.ofNat (Hex.digit n).toNat

/-- The digits of the code of a control character. -/
theorem hexUnit?_control : ∀ n < 0x20,
    charOctets ['\\', 'u', '0', '0', Hex.digit (n / 16), Hex.digit (n % 16)] =
        [0x5c, 0x75, 0x30, 0x30, hexOctet (n / 16), hexOctet (n % 16)] ∧
      hexUnit? 0x30 0x30 (hexOctet (n / 16)) (hexOctet (n % 16)) = some n := by
  decide

/-- **A character is read back from the text as which it is written**, whatever follows it. -/
theorem scanText?_escapeChar (c : Char) (rest : List UInt8) :
    scanText? (charOctets (escapeChar c) ++ rest) =
      (scanText? rest).map (withPieces (piecesOf c)) := by
  by_cases hquote : c = '"'
  · subst hquote
    exact scanText?_escape (by decide) rfl rest
  by_cases hslash : c = '\\'
  · subst hslash
    exact scanText?_escape (by decide) rfl rest
  by_cases hn : c = '\n'
  · subst hn
    exact scanText?_escape (by decide) rfl rest
  by_cases hr : c = '\r'
  · subst hr
    exact scanText?_escape (by decide) rfl rest
  by_cases ht : c = '\t'
  · subst ht
    exact scanText?_escape (by decide) rfl rest
  by_cases hb : c = '\x08'
  · subst hb
    exact scanText?_escape (by decide) rfl rest
  by_cases hf : c = '\x0c'
  · subst hf
    exact scanText?_escape (by decide) rfl rest
  simp only [escapeChar, piecesOf, hquote, hslash, hn, hr, ht, hb, hf, if_false, ne_eq,
    not_false_eq_true, and_true]
  by_cases hcontrol : c.toNat < 0x20
  · obtain ⟨hoctets, hunit⟩ := hexUnit?_control c.toNat hcontrol
    rw [if_pos hcontrol, if_pos hcontrol, hoctets]
    exact scanText?_unit hunit rest
  · rw [if_neg hcontrol, if_neg hcontrol, charOctets_cons, charOctets_nil, List.append_nil]
    exact scanText?_octets (octets_of_plain hquote hslash (Nat.not_lt.1 hcontrol)) rest

/-- The pieces of a character denote its octets, and decoding then goes on with the pieces that
follow. The induction over a text rests on this one case. -/
theorem decodePieces?_piecesOf (c : Char) (pieces : List TextPiece) :
    decodePieces? (piecesOf c ++ pieces) =
      (decodePieces? pieces).map (String.utf8EncodeChar c ++ ·) := by
  rw [piecesOf]
  split
  · next h =>
      have hcontrol := h.1
      rw [List.singleton_append, decodePieces?.eq_def]
      simp only
      rw [if_neg (by omega), if_neg (by omega), Char.ofNat_toNat]
  · induction String.utf8EncodeChar c with
    | nil => exact (Option.map_id' ..).symm
    | cons b octets ih =>
        rw [List.map_cons, List.cons_append, decodePieces?, ih, Option.map_map]
        rfl

/-! ### String literals -/

/-- A string literal is read up to its closing quote. -/
theorem scanText?_quote (chars : List Char) (rest : List UInt8) :
    scanText? (charOctets (chars.flatMap escapeChar ++ ['"']) ++ rest) =
      some (chars.flatMap piecesOf, rest) := by
  induction chars with
  | nil => rfl
  | cons c chars ih =>
      rw [List.flatMap_cons, List.append_assoc, charOctets_append, List.append_assoc,
        scanText?_escapeChar, ih]
      rfl

/-- The pieces of a whole text denote the octets of its characters, by induction from the pieces of
one character. -/
theorem decodePieces?_pieces (chars : List Char) :
    decodePieces? (chars.flatMap piecesOf) = some (charOctets chars) := by
  induction chars with
  | nil => rfl
  | cons c chars ih =>
      rw [List.flatMap_cons, decodePieces?_piecesOf, ih]
      rfl

/-- The pieces of a string literal denote the string. -/
theorem decodeText?_pieces (s : String) : decodeText? (s.toList.flatMap piecesOf) = some s := by
  rw [decodeText?, decodePieces?_pieces, ← utf8Octets_eq]
  exact fromUTF8?_utf8Octets s

/-- **Strings read back.** The scanner of tokens takes the text of a string, quotes and escapes
included, for the string it was written from, and stops right after the closing quote. -/
theorem scanToken?_quote (s : String) (rest : List UInt8) :
    scanToken? (utf8Octets (quote s) ++ rest) = some (.text (some s), rest) := by
  have hscan := scanText?_quote s.toList rest
  have htoken : scanToken? (utf8Octets (quote s) ++ rest) =
      (scanText? (charOctets (s.toList.flatMap escapeChar ++ ['"']) ++ rest)).map
        fun content => (.text (decodeText? content.1), content.2) := by
    rw [quote, utf8Octets_ofList]
    rfl
  rw [htoken, hscan, Option.map_some]
  exact congrArg (fun content => some (Token.text content, rest)) (decodeText?_pieces s)

end ShardQuery.Json
