import ShardQuery.Json.Basic

/-!
# JSON Tokens

The lexical grammar of JSON over octets. `lex?` cuts a text into tokens and fails exactly
if some part of it is no token and no white space. String literals are read in two steps:
`scanText?` finds their end and undoes the simple escapes, and `decodeText?` gives the
characters that they denote, if they denote any.
-/

namespace ShardQuery.Json

/-- A token of a JSON text, as the lexical grammar tells them apart; white space between tokens is
not one. -/
inductive Token where
  /-- An opening bracket. -/
  | openArray
  /-- A closing bracket. -/
  | closeArray
  /-- An opening brace. -/
  | openObject
  /-- A closing brace. -/
  | closeObject
  /-- A comma. -/
  | comma
  /-- A colon. -/
  | colon
  /-- A string literal; none if it denotes no text. -/
  | text (content : Option String)
  /-- A number or one of the three names. -/
  | scalar (value : Json)

/-! ### Octets -/

/-- The white space of JSON, which may stand between any two tokens: space, tab, line feed and
carriage return. -/
def isBlank (b : UInt8) : Bool :=
  b == 0x20 || b == 0x09 || b == 0x0a || b == 0x0d

/-- The ten decimal digits of ASCII, of which the numbers of a text are made. -/
def isDigit (b : UInt8) : Bool :=
  decide (0x30 ≤ b ∧ b ≤ 0x39)

/-- The value of a hexadecimal digit in either case. -/
def hexValue? (b : UInt8) : Option Nat :=
  if 0x30 ≤ b ∧ b ≤ 0x39 then some (b.toNat - 0x30)
  else if 0x41 ≤ b ∧ b ≤ 0x46 then some (b.toNat - 0x37)
  else if 0x61 ≤ b ∧ b ≤ 0x66 then some (b.toNat - 0x57)
  else none

/-- The code unit written by the four hexadecimal digits of an escape `\u`, none if one of them is
no digit. -/
def hexUnit? (a b c d : UInt8) : Option Nat := do
  let a ← hexValue? a
  let b ← hexValue? b
  let c ← hexValue? c
  let d ← hexValue? d
  return ((a * 16 + b) * 16 + c) * 16 + d

/-! ### String literals -/

/-- A piece of a string literal: an octet that stands for itself, or a code unit written
by its four digits. -/
inductive TextPiece where
  /-- An octet of the text, or one denoted by a simple escape. -/
  | octet (b : UInt8)
  /-- A code unit of sixteen bits. -/
  | unit (value : Nat)
deriving DecidableEq, Repr

/-- The octet denoted by a backslash and a letter. -/
def simpleEscape? (b : UInt8) : Option UInt8 :=
  if b = 0x22 ∨ b = 0x5c ∨ b = 0x2f then some b
  else if b = 0x62 then some 0x08
  else if b = 0x66 then some 0x0c
  else if b = 0x6e then some 0x0a
  else if b = 0x72 then some 0x0d
  else if b = 0x74 then some 0x09
  else none

/-- Reads a string literal after its opening quote: its pieces and what follows its closing
quote. Control characters must be escaped. -/
def scanText? : List UInt8 → Option (List TextPiece × List UInt8)
  | [] => none
  | 0x22 :: rest => some ([], rest)
  | 0x5c :: 0x75 :: a :: b :: c :: d :: rest =>
    match hexUnit? a b c d, scanText? rest with
    | some value, some (pieces, rest) => some (.unit value :: pieces, rest)
    | _, _ => none
  | 0x5c :: letter :: rest =>
    match simpleEscape? letter, scanText? rest with
    | some b, some (pieces, rest) => some (.octet b :: pieces, rest)
    | _, _ => none
  | b :: rest =>
    if b < 0x20 ∨ b = 0x5c then none
    else
      match scanText? rest with
      | some (pieces, rest) => some (.octet b :: pieces, rest)
      | none => none

/-- The octets that the pieces of a string literal denote. Two code units that form a
surrogate pair denote one character; a surrogate without its partner denotes none. -/
def decodePieces? : List TextPiece → Option (List UInt8)
  | [] => some []
  | .octet b :: pieces => (decodePieces? pieces).map (b :: ·)
  | .unit value :: pieces =>
    if 0xd800 ≤ value ∧ value < 0xdc00 then
      match pieces with
      | .unit low :: pieces =>
        if 0xdc00 ≤ low ∧ low < 0xe000 then
          let code := 0x10000 + (value - 0xd800) * 0x400 + (low - 0xdc00)
          (decodePieces? pieces).map (String.utf8EncodeChar (Char.ofNat code) ++ ·)
        else none
      | _ => none
    else if 0xdc00 ≤ value ∧ value < 0xe000 then none
    else (decodePieces? pieces).map (String.utf8EncodeChar (Char.ofNat value) ++ ·)

/-- The text that the pieces of a string literal denote. -/
def decodeText? (pieces : List TextPiece) : Option String :=
  match decodePieces? pieces with
  | some octets => String.fromUTF8? ⟨octets.toArray⟩
  | none => none

/-! ### Numbers -/

/-- The number written by a run of digits, read onto a number to their left. -/
def digitsValue (left : Nat) (digits : List UInt8) : Nat :=
  digits.foldl (fun n b => n * 10 + (b.toNat - 0x30)) left

/-- The part of a number before the point. A leading zero stands alone. -/
def scanWhole? : List UInt8 → Option (List UInt8 × List UInt8)
  | 0x30 :: rest => some ([0x30], rest)
  | text =>
    match text.takeWhile isDigit with
    | [] => none
    | digits => some (digits, text.dropWhile isDigit)

/-- The fraction of a number, if there is one: its digits, none without a point. -/
def scanFraction? : List UInt8 → Option (Option (List UInt8) × List UInt8)
  | 0x2e :: rest =>
    match rest.takeWhile isDigit with
    | [] => none
    | digits => some (some digits, rest.dropWhile isDigit)
  | text => some (none, text)

/-- The sign and the digits of an exponent after its letter. -/
def scanExponentDigits? (negative : Bool) (text : List UInt8) :
    Option (Option Int × List UInt8) :=
  match text.takeWhile isDigit with
  | [] => none
  | digits =>
    let value : Int := digitsValue 0 digits
    some (some (if negative then -value else value), text.dropWhile isDigit)

/-- The exponent of a number, if there is one. -/
def scanExponent? : List UInt8 → Option (Option Int × List UInt8)
  | letter :: rest =>
    if letter = 0x65 ∨ letter = 0x45 then
      match rest with
      | 0x2b :: digits => scanExponentDigits? false digits
      | 0x2d :: digits => scanExponentDigits? true digits
      | digits => scanExponentDigits? false digits
    else some (none, letter :: rest)
  | [] => some (none, [])

/-- What a number literal denotes. An integer literal is an `int` if it fits a signed or
an unsigned word of sixty-four bits and is no negative zero; any other number is the
nearest double, and flawed if that is infinite. -/
def number (negative : Bool) (whole : List UInt8) (fraction : Option (List UInt8))
    (exponent : Option Int) : Json :=
  let digits := digitsValue (digitsValue 0 whole) (fraction.getD [])
  let integer : Int := if negative then -(digits : Int) else digits
  if fraction.isNone && exponent.isNone && !(negative && digits == 0)
      && decide (Int64.minValue.toInt ≤ integer ∧ integer < UInt64.size) then
    .int integer
  else
    let d := Double.ofDecimal negative digits (exponent.getD 0 - (fraction.getD []).length)
    if d.isFinite then .double d else .flawed

/-- Reads a number after its sign: the digits before the point, then a fraction and an exponent if
they are there. -/
def scanUnsigned? (negative : Bool) (text : List UInt8) : Option (Json × List UInt8) := do
  let (whole, text) ← scanWhole? text
  let (fraction, text) ← scanFraction? text
  let (exponent, text) ← scanExponent? text
  return (number negative whole fraction exponent, text)

/-- Reads a number literal: an optional minus sign, and behind it a number without a sign. -/
def scanNumber? : List UInt8 → Option (Json × List UInt8)
  | 0x2d :: rest => scanUnsigned? true rest
  | text => scanUnsigned? false text

/-! ### Tokens -/

/-- The token at the start of a text, which is not empty and does not start with a blank,
and what follows it. -/
def scanToken? : List UInt8 → Option (Token × List UInt8)
  | 0x5b :: rest => some (.openArray, rest)
  | 0x5d :: rest => some (.closeArray, rest)
  | 0x7b :: rest => some (.openObject, rest)
  | 0x7d :: rest => some (.closeObject, rest)
  | 0x2c :: rest => some (.comma, rest)
  | 0x3a :: rest => some (.colon, rest)
  | 0x22 :: rest => (scanText? rest).map fun (pieces, rest) => (.text (decodeText? pieces), rest)
  | 0x6e :: 0x75 :: 0x6c :: 0x6c :: rest => some (.scalar .null, rest)
  | 0x74 :: 0x72 :: 0x75 :: 0x65 :: rest => some (.scalar (.bool true), rest)
  | 0x66 :: 0x61 :: 0x6c :: 0x73 :: 0x65 :: rest => some (.scalar (.bool false), rest)
  | text => (scanNumber? text).map fun (value, rest) => (.scalar value, rest)

/-! ### Progress -/

/-- A string literal is followed by less than it started with. -/
theorem length_lt_of_scanText? {text rest : List UInt8} {pieces : List TextPiece}
    (h : scanText? text = some (pieces, rest)) : rest.length < text.length := by
  fun_induction scanText? text generalizing pieces rest <;> simp_all <;> grind

/-- Dropping a run of octets that is not empty leaves less of a text. -/
theorem length_dropWhile_lt {text digits : List UInt8} {p : UInt8 → Bool}
    (h : text.takeWhile p = digits) (hd : digits ≠ []) :
    (text.dropWhile p).length < text.length := by
  have hlen := congrArg List.length (List.takeWhile_append_dropWhile (p := p) (l := text))
  have := List.length_pos_iff.2 hd
  rw [List.length_append, h] at hlen
  omega

/-- The digits before the point are at least one, so that less of the text is left behind them. -/
theorem length_lt_of_scanWhole? {text rest : List UInt8} {digits : List UInt8}
    (h : scanWhole? text = some (digits, rest)) : rest.length < text.length := by
  unfold scanWhole? at h
  split at h
  · simp_all
  · split at h
    · simp at h
    · next hd =>
      simp only [Option.some.injEq, Prod.mk.injEq] at h
      obtain ⟨-, rfl⟩ := h
      exact length_dropWhile_lt rfl (by simpa using hd)

/-- A fraction takes nothing back: what is left behind it is no longer than what it was read from.
-/
theorem length_le_of_scanFraction? {text rest : List UInt8} {fraction : Option (List UInt8)}
    (h : scanFraction? text = some (fraction, rest)) : rest.length ≤ text.length := by
  unfold scanFraction? at h
  split at h
  · split at h
    · simp at h
    · simp only [Option.some.injEq, Prod.mk.injEq] at h
      obtain ⟨-, rfl⟩ := h
      exact Nat.le_succ_of_le (List.dropWhile_sublist isDigit).length_le
  · simp_all

/-- The sign and the digits of an exponent take nothing back. -/
theorem length_le_of_scanExponentDigits? {negative : Bool} {text rest : List UInt8}
    {exponent : Option Int} (h : scanExponentDigits? negative text = some (exponent, rest)) :
    rest.length ≤ text.length := by
  unfold scanExponentDigits? at h
  split at h
  · simp at h
  · simp only [Option.some.injEq, Prod.mk.injEq] at h
    obtain ⟨-, rfl⟩ := h
    exact (List.dropWhile_sublist isDigit).length_le

/-- An exponent takes nothing back, whether there is one or not. -/
theorem length_le_of_scanExponent? {text rest : List UInt8} {exponent : Option Int}
    (h : scanExponent? text = some (exponent, rest)) : rest.length ≤ text.length := by
  unfold scanExponent? at h
  split at h
  · split at h
    · split at h <;>
        have := length_le_of_scanExponentDigits? h <;>
        simp_all only [List.length_cons] <;> omega
    · simp_all
  · simp_all

/-- A number without a sign takes something off the text, since its first part does. -/
theorem length_lt_of_scanUnsigned? {negative : Bool} {text rest : List UInt8} {value : Json}
    (h : scanUnsigned? negative text = some (value, rest)) : rest.length < text.length := by
  simp only [scanUnsigned?, Option.bind_eq_bind, Option.bind_eq_some_iff, Prod.exists,
    Option.pure_def, Option.some.injEq, Prod.mk.injEq] at h
  obtain ⟨_, _, hw, _, _, hf, _, _, he, -, rfl⟩ := h
  have h1 := length_lt_of_scanWhole? hw
  have h2 := length_le_of_scanFraction? hf
  have h3 := length_le_of_scanExponent? he
  omega

/-- A number literal takes something off the text, with a sign and without. -/
theorem length_lt_of_scanNumber? {text rest : List UInt8} {value : Json}
    (h : scanNumber? text = some (value, rest)) : rest.length < text.length := by
  unfold scanNumber? at h
  split at h
  · have := length_lt_of_scanUnsigned? h
    simp only [List.length_cons]
    omega
  · exact length_lt_of_scanUnsigned? h

/-- Every token takes something off the text, which is why cutting a text into tokens comes to an
end. -/
theorem length_lt_of_scanToken? {text rest : List UInt8} {token : Token}
    (h : scanToken? text = some (token, rest)) : rest.length < text.length := by
  unfold scanToken? at h
  split at h
  all_goals first
    | (simp only [Option.some.injEq, Prod.mk.injEq] at h
       obtain ⟨-, rfl⟩ := h
       simp only [List.length_cons]
       omega)
    | (simp only [Option.map_eq_some_iff, Prod.mk.injEq] at h
       obtain ⟨⟨_, _⟩, hs, -, rfl⟩ := h
       first
         | (simp only [List.length_cons]
            have := length_lt_of_scanText? hs
            omega)
         | exact length_lt_of_scanNumber? hs)

/-- The tokens of a text, blanks left out. -/
def lex? : List UInt8 → Option (List Token)
  | [] => some []
  | b :: text =>
    if isBlank b then lex? text
    else
      match h : scanToken? (b :: text) with
      | some (token, rest) =>
        have : rest.length < text.length + 1 := length_lt_of_scanToken? h
        (lex? rest).map (token :: ·)
      | none => none
termination_by text => text.length

end ShardQuery.Json
