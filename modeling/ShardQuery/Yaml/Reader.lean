import ShardQuery.Yaml.Basic
import ShardQuery.Yaml.Token

/-!
# Reading YAML Documents

A document is read from its tokens by recursive descent. Outside of brackets the columns of
tokens decide what belongs to what: the keys of a mapping and the dashes of a sequence stand
in one column, and their values further to the right. A value on the line of its key is a
scalar or stands in brackets. Within brackets commas and closing brackets decide, and columns
do not matter.

All readers take the tokens that are still to come and give a part of the document and the
tokens behind it. `fuel` bounds the depth of their calls; `parse?` gives enough of it, as
every token is the first one for two calls at most.
-/

namespace ShardQuery.Yaml

/-- The text of a token that may be a key. -/
def Token.key? : Token → Option String
  | .plain text | .quoted text => some text
  | _ => none

/-- Whether the next token is a colon on the same line. -/
def colonFollows : List Lexeme → Bool
  | next :: _ => decide (next.token = .colon) && !next.leading
  | [] => false

/-! ### Within brackets -/

mutual

/-- A scalar, or a collection in brackets; within brackets no other value can stand. -/
def readFlow? (fuel : Nat) (lexemes : List Lexeme) : Option (Yaml × List Lexeme) :=
  match fuel, lexemes with
  | 0, _ | _, [] => none
  | fuel + 1, first :: rest =>
    match first.token with
    | .plain text => some (.scalar true text, rest)
    | .quoted text => some (.scalar false text, rest)
    | .openMapping => (readFlowEntries? fuel rest).map fun (entries, rest) =>
      (.mapping entries, rest)
    | .openSequence => (readFlowItems? fuel rest).map fun (items, rest) => (.sequence items, rest)
    | _ => none

/-- The entries of a mapping in braces up to the closing brace. A key without a colon has an
empty value. -/
def readFlowEntries? (fuel : Nat) (lexemes : List Lexeme) :
    Option (List (String × Yaml) × List Lexeme) :=
  match fuel, lexemes with
  | 0, _ | _, [] => none
  | fuel + 1, first :: rest =>
    if first.token = .closeMapping then some ([], rest)
    else do
      let key ← first.token.key?
      let (value, rest) ← readFlowValue? fuel rest
      match rest with
      | next :: rest =>
        if next.token = .comma then
          let (entries, rest) ← readFlowEntries? fuel rest
          return ((key, value) :: entries, rest)
        else if next.token = .closeMapping then return ([(key, value)], rest)
        else none
      | [] => none

/-- The value behind a key in braces, empty if there is no colon or nothing behind it. -/
def readFlowValue? (fuel : Nat) (lexemes : List Lexeme) : Option (Yaml × List Lexeme) :=
  match fuel, lexemes with
  | 0, _ => none
  | fuel + 1, first :: next :: rest =>
    if first.token = .colon then
      if next.token = .comma ∨ next.token = .closeMapping then some (empty, next :: rest)
      else readFlow? fuel (next :: rest)
    else some (empty, first :: next :: rest)
  | _, lexemes => some (empty, lexemes)

/-- The items of a sequence in brackets up to the closing bracket. -/
def readFlowItems? (fuel : Nat) (lexemes : List Lexeme) : Option (List Yaml × List Lexeme) :=
  match fuel, lexemes with
  | 0, _ | _, [] => none
  | fuel + 1, first :: rest =>
    if first.token = .closeSequence then some ([], rest)
    else do
      let (item, rest) ← readFlow? fuel (first :: rest)
      match rest with
      | next :: rest =>
        if next.token = .comma then
          let (items, rest) ← readFlowItems? fuel rest
          return (item :: items, rest)
        else if next.token = .closeSequence then return ([item], rest)
        else none
      | [] => none

end

/-! ### Outside of brackets -/

/-- A value on the line of its key: a scalar, or a collection in brackets, but no key. -/
def readInline? (fuel : Nat) (lexemes : List Lexeme) : Option (Yaml × List Lexeme) := do
  let (value, rest) ← readFlow? fuel lexemes
  if colonFollows rest then none else return (value, rest)

mutual

/-- A value that begins with the next token: a sequence if that is a dash, a mapping if it
is a key, otherwise a scalar or a collection in brackets. -/
def readBlock? (fuel : Nat) (lexemes : List Lexeme) : Option (Yaml × List Lexeme) :=
  match fuel, lexemes with
  | 0, _ | _, [] => none
  | fuel + 1, first :: rest =>
    if first.token = .dash then
      (readItems? fuel first.column (first :: rest)).map fun (items, rest) =>
        (.sequence items, rest)
    else if first.token.key?.isSome && colonFollows rest then
      (readEntries? fuel first.column (first :: rest)).map fun (entries, rest) =>
        (.mapping entries, rest)
    else readInline? fuel (first :: rest)

/-- The entries of a mapping whose keys stand in a column. Behind them the next token is the
first one of its line and stands further to the left. -/
def readEntries? (fuel column : Nat) (lexemes : List Lexeme) :
    Option (List (String × Yaml) × List Lexeme) :=
  match fuel, lexemes with
  | 0, _ => none
  | fuel + 1, first :: second :: rest => do
    let key ← first.token.key?
    if !colonFollows (second :: rest) then none
    else
      let (value, rest) ← readValue? fuel column rest
      match rest with
      | [] => return ([(key, value)], [])
      | next :: others =>
        if !next.leading || column < next.column then none
        else if next.column < column then return ([(key, value)], next :: others)
        else
          let (entries, rest) ← readEntries? fuel column (next :: others)
          return ((key, value) :: entries, rest)
  | _, _ => none

/-- The value of a key in a column. The dashes of a sequence may stand below the key. -/
def readValue? (fuel column : Nat) (lexemes : List Lexeme) : Option (Yaml × List Lexeme) :=
  match fuel, lexemes with
  | 0, _ => none
  | _, [] => some (empty, [])
  | fuel + 1, next :: rest =>
    if !next.leading then readInline? fuel (next :: rest)
    else if column < next.column then readBlock? fuel (next :: rest)
    else if next.column = column ∧ next.token = .dash then
      (readItems? fuel column (next :: rest)).map fun (items, rest) => (.sequence items, rest)
    else some (empty, next :: rest)

/-- The items of a sequence whose dashes stand in a column. -/
def readItems? (fuel column : Nat) (lexemes : List Lexeme) : Option (List Yaml × List Lexeme) :=
  match fuel, lexemes with
  | 0, _ | _, [] => none
  | fuel + 1, _ :: rest => do
    let (item, rest) ← readItem? fuel column rest
    match rest with
    | [] => return ([item], [])
    | next :: others =>
      if !next.leading || column < next.column then none
      else if next.column = column ∧ next.token = .dash then
        let (items, rest) ← readItems? fuel column (next :: others)
        return (item :: items, rest)
      else return ([item], next :: others)

/-- The item behind a dash in a column. -/
def readItem? (fuel column : Nat) (lexemes : List Lexeme) : Option (Yaml × List Lexeme) :=
  match fuel, lexemes with
  | 0, _ => none
  | _, [] => some (empty, [])
  | fuel + 1, next :: rest =>
    if !next.leading || column < next.column then readBlock? fuel (next :: rest)
    else some (empty, next :: rest)

end

/-! ### Documents -/

/-- The tokens of a document up to its end, if nothing comes behind it. -/
def untilEnd? : List Lexeme → Option (List Lexeme)
  | [] => some []
  | first :: rest =>
    if first.token = .documentEnd then
      if rest.all fun lexeme => decide (lexeme.token = .documentEnd) then some [] else none
    else (untilEnd? rest).map (first :: ·)

/-- The tokens behind the line that starts a document, if there is one. -/
def dropStart : List Lexeme → List Lexeme
  | [] => []
  | first :: rest => if first.token = .documentStart then rest else first :: rest

/-- The document of tokens. Behind the line that starts it the document may begin on the
same line if it does not begin with a key. -/
def readDocument? (lexemes : List Lexeme) : Option Yaml := do
  let fuel := 3 * lexemes.length + 3
  let content ← untilEnd? lexemes
  match dropStart content with
  | [] => return empty
  | first :: rest =>
    let (document, rest) ←
      if first.leading then readBlock? fuel (first :: rest) else readInline? fuel (first :: rest)
    if rest.isEmpty then return document else none

/-- The document written by a text. A text without a document is an empty value. -/
def parse? (text : String) : Option Yaml :=
  (lex? text).bind readDocument?

end ShardQuery.Yaml
