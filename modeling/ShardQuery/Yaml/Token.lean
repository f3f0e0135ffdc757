import ShardQuery.Text.Numeral

/-!
# YAML Tokens

The lexical grammar of configuration files. A text is cut into lines, and each line into
tokens with their columns. How a line is cut depends only on how many brackets are open at
its start: within brackets a comma or a bracket ends a plain text, and the indentation is
free. Texts in quotes and plain texts end on the line that they begin on. Anchors, tags and
block scalars are not supported.

Main definition: `Yaml.lex?` — the tokens of a text.
-/

namespace ShardQuery.Yaml

/-- A token of a YAML text, as far as configuration files use them. -/
inductive Token where
  /-- A plain text. -/
  | plain (text : String)
  /-- A text in quotes. -/
  | quoted (text : String)
  /-- The colon behind a key. -/
  | colon
  /-- The dash before an item. -/
  | dash
  /-- A comma within brackets. -/
  | comma
  /-- An opening brace. -/
  | openMapping
  /-- A closing brace. -/
  | closeMapping
  /-- An opening bracket. -/
  | openSequence
  /-- A closing bracket. -/
  | closeSequence
  /-- The line before a document. -/
  | documentStart
  /-- The line behind a document. -/
  | documentEnd
deriving DecidableEq, Repr

/-- A token at its place, which decides what it belongs to outside of brackets. -/
structure Lexeme where
  /-- The column of its first character. -/
  column : Nat
  /-- Whether it is the first token on its line. -/
  leading : Bool
  /-- The token. -/
  token : Token
deriving DecidableEq, Repr

/-! ### Characters -/

/-- The blanks within a line, which are space and tab. -/
def isBlank (c : Char) : Bool :=
  c == ' ' || c == '\t'

/-- Whether nothing or a blank follows, so that the word before has its end here. -/
def endsWord : List Char → Bool
  | [] => true
  | c :: _ => isBlank c

/-- The characters that may occur in a text. -/
def isAllowed (c : Char) : Bool :=
  let n := c.toNat
  n == 0x09 || n == 0x0a || n == 0x0d || (0x20 ≤ n && n ≤ 0x7e) || n == 0x85 ||
    (0xa0 ≤ n && n ≤ 0xd7ff) || (0xe000 ≤ n && n ≤ 0xfffd && n != 0xfeff) || 0x10000 ≤ n

/-- The brackets and the comma, which end a plain text within brackets. -/
def isFlowMark (c : Char) : Bool :=
  [',', '[', ']', '\x7b', '\x7d'].contains c

/-- The characters that no plain text starts with. -/
def isIndicator (c : Char) : Bool :=
  isFlowMark c || ['#', '&', '*', '!', '|', '>', '\'', '"', '%', '@', '\x60'].contains c

/-- Whether a plain text starts here. A dash, a question mark or a colon starts one only if
a word goes on behind it. -/
def startsPlain (inFlow : Bool) : List Char → Bool
  | [] => false
  | c :: rest =>
    if c = '-' then !endsWord rest
    else if c = '?' || c = ':' then !inFlow && !endsWord rest
    else !isIndicator c && !isBlank c

/-! ### Texts -/

/-- The rest of a plain text and what follows it. It ends before a colon that ends a word,
before a comment, and within brackets before a bracket or a comma. Fails at a colon that
stands directly before one of these. -/
def takePlain? (inFlow : Bool) : List Char → Option (List Char × List Char)
  | [] => some ([], [])
  | c :: rest =>
    if c = ':' && endsWord rest then some ([], c :: rest)
    else if inFlow && c = ':' && rest.head?.any (fun d => isFlowMark d || d = '?') then none
    else if inFlow && isFlowMark c then some ([], c :: rest)
    else if isBlank c && (rest.dropWhile isBlank).head? = some '#' then some ([], c :: rest)
    else (takePlain? inFlow rest).map fun (text, after) => (c :: text, after)

/-- A text without the blanks at its end. -/
def dropTrailingBlanks (text : List Char) : List Char :=
  (text.reverse.dropWhile isBlank).reverse

/-- The rest of a text in single quotes and what follows it. Two quotes stand for one. -/
def takeSingleQuoted? : List Char → Option (List Char × List Char)
  | '\'' :: '\'' :: rest =>
    (takeSingleQuoted? rest).map fun (text, after) => ('\'' :: text, after)
  | '\'' :: rest => some ([], rest)
  | c :: rest => (takeSingleQuoted? rest).map fun (text, after) => (c :: text, after)
  | [] => none

/-- The character of a code point in hexadecimal digits. -/
def charOfHex? (digits : List Char) : Option Char := do
  let values ← digits.mapM (Numeral.digitBelow? 16)
  let n := values.foldl (fun n value => n * 16 + value) 0
  if n.isValidChar then some (Char.ofNat n) else none

/-- The character that a backslash and a letter stand for in double quotes. -/
def simpleEscape? (c : Char) : Option Char :=
  ([('0', '\x00'), ('a', '\x07'), ('b', '\x08'), ('t', '\t'), ('\t', '\t'), ('n', '\n'),
    ('v', '\x0b'), ('f', '\x0c'), ('r', '\r'), ('e', '\x1b'), (' ', ' '), ('"', '"'),
    ('/', '/'), ('\\', '\\'), ('N', '\x85'), ('_', '\u00a0'), ('L', '\u2028'),
    ('P', '\u2029')].find? (·.1 == c)).map (·.2)

/-- The rest of a text in double quotes and what follows it. -/
def takeDoubleQuoted? : List Char → Option (List Char × List Char)
  | [] => none
  | '"' :: rest => some ([], rest)
  | '\\' :: 'x' :: a :: b :: rest => do
    let c ← charOfHex? [a, b]
    let (text, after) ← takeDoubleQuoted? rest
    return (c :: text, after)
  | '\\' :: 'u' :: a :: b :: c :: d :: rest => do
    let c ← charOfHex? [a, b, c, d]
    let (text, after) ← takeDoubleQuoted? rest
    return (c :: text, after)
  | '\\' :: 'U' :: a :: b :: c :: d :: e :: f :: g :: h :: rest => do
    let c ← charOfHex? [a, b, c, d, e, f, g, h]
    let (text, after) ← takeDoubleQuoted? rest
    return (c :: text, after)
  | '\\' :: letter :: rest => do
    let c ← simpleEscape? letter
    let (text, after) ← takeDoubleQuoted? rest
    return (c :: text, after)
  | c :: rest => (takeDoubleQuoted? rest).map fun (text, after) => (c :: text, after)

/-! ### Lines -/

/-- The lines of a text, without the characters that end them. -/
def lines : List Char → List (List Char)
  | [] => [[]]
  | '\r' :: '\n' :: rest => [] :: lines rest
  | c :: rest =>
    if ['\n', '\r', '\x85', '\u2028', '\u2029'].contains c then [] :: lines rest
    else
      match lines rest with
      | [] => [[c]]
      | line :: others => (c :: line) :: others

/-- The token that begins a line between documents, and what follows it. -/
def documentMark? : List Char → Option (Token × List Char)
  | '-' :: '-' :: '-' :: rest => if endsWord rest then some (.documentStart, rest) else none
  | '.' :: '.' :: '.' :: rest => if endsWord rest then some (.documentEnd, rest) else none
  | _ => none

/-- The token of a single character, if it is one, and the number of brackets that are open
behind it. -/
def mark? (depth : Nat) (c : Char) (rest : List Char) : Option (Token × Nat) :=
  if c = '\x7b' then some (.openMapping, depth + 1)
  else if c = '\x7d' then some (.closeMapping, depth - 1)
  else if c = '[' then some (.openSequence, depth + 1)
  else if c = ']' then some (.closeSequence, depth - 1)
  else if c = ',' then some (.comma, depth)
  else if c = ':' && (depth != 0 || endsWord rest) then some (.colon, depth)
  else if c = '-' && endsWord rest then some (.dash, depth)
  else none

/-- A text that begins at a character, and what follows it. -/
def text? (inFlow : Bool) (c : Char) (rest : List Char) : Option (Token × List Char) :=
  if c = '"' then
    (takeDoubleQuoted? rest).map fun (text, after) => (.quoted (String.ofList text), after)
  else if c = '\'' then
    (takeSingleQuoted? rest).map fun (text, after) => (.quoted (String.ofList text), after)
  else if startsPlain inFlow (c :: rest) then
    (takePlain? inFlow (c :: rest)).map fun (text, after) =>
      (.plain (String.ofList (dropTrailingBlanks text)), after)
  else none

/-- The tokens of a rest of a line, at most `fuel` many, and the number of brackets that are
open behind them. -/
def lexLine? (column : Nat) (leading : Bool) (depth : Nat) (chars : List Char) :
    Nat → Option (List Lexeme × Nat)
  | 0 => none
  | fuel + 1 => do
    let blanks := (chars.takeWhile isBlank).length
    let place := column + blanks
    match chars.drop blanks with
    | [] => return ([], depth)
    | c :: rest =>
      if c = '#' then return ([], depth)
      else
        match mark? depth c rest with
        | some (token, depth) =>
          let (lexemes, depth) ← lexLine? (place + 1) false depth rest fuel
          return (⟨place, leading, token⟩ :: lexemes, depth)
        | none =>
          let (token, after) ← text? (depth != 0) c rest
          let width := rest.length + 1 - after.length
          let (lexemes, depth) ← lexLine? (place + width) false depth after fuel
          return (⟨place, leading, token⟩ :: lexemes, depth)

/-- The tokens of a line, and the number of brackets that are open behind it. Outside of
brackets a line must not be indented by tabs. -/
def lexWholeLine? (depth : Nat) (line : List Char) : Option (List Lexeme × Nat) :=
  match documentMark? line with
  | some (token, rest) =>
    (lexLine? 3 false depth rest (line.length + 1)).map fun (lexemes, depth) =>
      (⟨0, true, token⟩ :: lexemes, depth)
  | none =>
    if depth = 0 && (line.takeWhile isBlank).contains '\t' then none
    else lexLine? 0 true depth line (line.length + 1)

/-- The tokens of lines, one line after the other, each with the brackets that are open at its
start. -/
def lexLines? (depth : Nat) : List (List Char) → Option (List Lexeme)
  | [] => some []
  | line :: others => do
    let (lexemes, depth) ← lexWholeLine? depth line
    return lexemes ++ (← lexLines? depth others)

/-- The tokens of a text. It may start with a byte order mark. -/
def lex? (text : String) : Option (List Lexeme) :=
  let chars :=
    match text.toList with
    | '\ufeff' :: chars => chars
    | chars => chars
  if chars.all isAllowed then lexLines? 0 (lines chars) else none

end ShardQuery.Yaml
