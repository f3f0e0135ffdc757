import ShardQuery.Text.Base64

/-!
# The Environment

The variables that a program is started with, and those that a file adds to them. The file
has assignments like `NAME=value`, one a line unless a quoted value goes on for several
lines. A variable that is set already is not changed. The first line that is no assignment
ends the reading; what stands before it counts.

A value ends at a blank behind which only a comment may stand. Within single quotes all
characters stand for themselves. Elsewhere a backslash takes the meaning of the next
character away, and `$NAME` or `${NAME}` stands for the value of a variable, or of an
earlier line.

Main definitions:

* `Environment.logicalLines?` — the lines of a file;
* `Environment.parseLine?` — the assignment of a line;
* `Environment.addFile` — the environment with the assignments of a file.
-/

namespace ShardQuery.Cli

/-- The variables of a program with their values. -/
structure Environment where
  /-- The variables. -/
  entries : List (String × String)

namespace Environment

/-- The value of a variable, none if it is not set; the first entry of its name counts. -/
def get? (environment : Environment) (name : String) : Option String :=
  (environment.entries.find? (·.1 == name)).map (·.2)

/-- The names in a text that variables may have: its longest words of letters and digits,
also with underscores and dots. -/
def namesIn (text : String) : List String :=
  let words (isPart : Char → Bool) : List String :=
    (text.toList.splitBy fun a b => isPart a == isPart b).map String.ofList
  (words Char.isAlphanum ++ words fun c => c.isAlphanum || c = '_' || c = '.').eraseDups

/-- Sets a variable unless it is set already. -/
def setNew (environment : Environment) (name value : String) : Environment :=
  if (environment.get? name).isSome then environment
  else ⟨(name, value) :: environment.entries⟩

/-! ### Lines -/

/-- What the end of a line may be within. -/
inductive LineState where
  /-- Nothing. -/
  | plain
  /-- A backslash was the last character. -/
  | escape
  /-- Single quotes. -/
  | single
  /-- Single quotes, and a backslash was the last character. -/
  | singleEscape
  /-- Double quotes. -/
  | double
  /-- Double quotes, and a backslash was the last character. -/
  | doubleEscape
  /-- A blank was the last character. -/
  | blank
deriving DecidableEq, Repr

/-- The state behind a character that is not within anything. -/
def LineState.ofPlain (c : Char) : LineState :=
  if c = '\\' then .escape
  else if c = '"' then .double
  else if c = '\'' then .single
  else .plain

/-- The state behind a character: quotes open and close, and a backslash takes the meaning of the
next character away. -/
def LineState.next (state : LineState) (c : Char) : LineState :=
  match state with
  | .plain => if isWhiteSpace c && c != '\n' && c != '\r' then .blank else .ofPlain c
  | .blank => .ofPlain c
  | .escape => .plain
  | .single => if c = '\\' then .singleEscape else if c = '\'' then .plain else .single
  | .singleEscape => .single
  | .double => if c = '\\' then .doubleEscape else if c = '"' then .plain else .double
  | .doubleEscape => .double

/-- Scans a line. Gives what stands before a comment, whether there is one, and the state
behind it. -/
def scanLine (state : LineState) : List Char → List Char × Bool × LineState
  | [] => ([], false, state)
  | c :: rest =>
    if state = .blank ∧ c = '#' then ([], true, state)
    else
      let (line, comment, state) := scanLine (state.next c) rest
      (c :: line, comment, state)

/-- The lines of a text, each with its line end. -/
def physicalLines : List Char → List (List Char)
  | [] => []
  | '\n' :: rest => ['\n'] :: physicalLines rest
  | c :: rest =>
    match physicalLines rest with
    | [] => [[c]]
    | line :: lines => (c :: line) :: lines

/-- Joins the lines that a quoted value goes on for; `before` is the beginning of the line
that goes on, and comment lines are left out. A line that never ends is none. -/
def joinLines (before : List Char) (state : LineState) :
    List (List Char) → List (Option (List Char))
  | [] => if state = .plain then [] else [none]
  | line :: lines =>
    if ((before ++ line).dropWhile isWhiteSpace).head? = some '#' then joinLines [] .plain lines
    else
      match scanLine state line with
      | (scanned, true, _) => some (before ++ scanned) :: joinLines [] .plain lines
      | (scanned, false, .plain) => some (before ++ scanned) :: joinLines [] .plain lines
      | (scanned, false, state) => joinLines (before ++ scanned) state lines

/-- The lines of a file without comment lines. A line that never ends is none. -/
def logicalLines (text : String) : List (Option (List Char)) :=
  let chars :=
    match text.toList with
    | '\ufeff' :: chars => chars
    | chars => chars
  joinLines [] .plain (physicalLines chars)

/-! ### Values -/

/-- What the next character of a value is within. -/
inductive ValueState where
  /-- Nothing. -/
  | plain
  /-- Single quotes. -/
  | single
  /-- Double quotes. -/
  | double
  /-- Behind the value. -/
  | ended
deriving DecidableEq, Repr

/-- The character that a backslash before a character stands for; before any other one it makes the
value unreadable. -/
def escaped? (c : Char) : Option Char :=
  if ['\\', '\'', '"', '$', ' '].contains c then some c
  else if c = 'n' then some '\n'
  else none

/-- The letters and digits of names behind a dollar sign. -/
def isNameChar (c : Char) : Bool :=
  c.isAlphanum

/-- The value of a variable, or of an earlier line, or nothing. -/
def substitute (environment : Environment) (earlier : List (String × String))
    (name : List Char) : List Char :=
  let name := String.ofList name
  match environment.get? name <|> (earlier.find? (·.1 == name)).map (·.2) with
  | some value => value.toList
  | none => []

/-- A name behind a dollar sign, and what follows it. In braces a name goes on to the
closing brace; a brace that is not closed fails. -/
def takeName? : List Char → Option (List Char × List Char)
  | '\x7b' :: rest =>
    let name := rest.takeWhile (· != '\x7d')
    match rest.drop name.length with
    | [] => none
    | _ :: rest => some (name, rest)
  | rest =>
    let name := rest.takeWhile isNameChar
    some (name, rest.drop name.length)

/-- Reads a value, at most `fuel` steps. A character directly behind a name without braces
stands for itself. -/
def readValue? (environment : Environment) (earlier : List (String × String))
    (state : ValueState) (chars : List Char) : Nat → Option (List Char)
  | 0 => none
  | fuel + 1 =>
    match state, chars with
    | .plain, [] | .ended, [] => some []
    | .single, [] | .double, [] => none
    | .ended, c :: rest =>
      if c = ' ' ∨ c = '\t' then readValue? environment earlier .ended rest fuel
      else if c = '#' then some []
      else none
    | .single, c :: rest =>
      if c = '\'' then readValue? environment earlier .plain rest fuel
      else (readValue? environment earlier .single rest fuel).map (c :: ·)
    | state, '$' :: rest => do
      let (name, after) ← takeName? rest
      let value := substitute environment earlier name
      match rest, after with
      | '\x7b' :: _, _ | _, '$' :: _ | _, [] =>
        return value ++ (← readValue? environment earlier state after fuel)
      | _, c :: after => return value ++ c :: (← readValue? environment earlier state after fuel)
    | state, '\\' :: c :: rest => do
      let c ← escaped? c
      return c :: (← readValue? environment earlier state rest fuel)
    | .plain, ['\\'] => some []
    | .double, ['\\'] => none
    | .double, c :: rest =>
      if c = '"' then readValue? environment earlier .plain rest fuel
      else (readValue? environment earlier .double rest fuel).map (c :: ·)
    | .plain, c :: rest =>
      if c = '\'' then readValue? environment earlier .single rest fuel
      else if c = '"' then readValue? environment earlier .double rest fuel
      else if c = ' ' ∨ c = '\t' then readValue? environment earlier .ended rest fuel
      else (readValue? environment earlier .plain rest fuel).map (c :: ·)

/-! ### Assignments -/

/-- A text without the white space before it. -/
def skipWhiteSpace (chars : List Char) : List Char :=
  chars.dropWhile isWhiteSpace

/-- A name before an equals sign, and what follows it. -/
def takeKey? (chars : List Char) : Option (String × List Char) :=
  if chars.head?.any fun c => c.isAlpha || c = '_' then
    let key := chars.takeWhile fun c => c.isAlphanum || c = '_' || c = '.'
    some (String.ofList key, skipWhiteSpace (chars.drop key.length))
  else none

/-- What follows an equals sign without the white space behind the sign, none if there is no sign.
-/
def takeEquals? : List Char → Option (List Char)
  | '=' :: rest => some (skipWhiteSpace rest)
  | _ => none

/-- The name of an assignment and what follows the equals sign. The word `export` may stand
before the name, and is a name itself if an equals sign follows it. -/
def takeTarget? (chars : List Char) : Option (String × List Char) := do
  let (key, rest) ← takeKey? chars
  match takeEquals? rest with
  | some value => return (key, value)
  | none =>
    if key = "export" then
      let (key, rest) ← takeKey? rest
      return (key, ← takeEquals? rest)
    else none

/-- The assignment of a line; none inside if the line is empty. -/
def parseLine? (environment : Environment) (earlier : List (String × String))
    (line : List Char) : Option (Option (String × String)) :=
  match trimWhiteSpace line with
  | [] => some none
  | '#' :: _ => some none
  | chars => do
    let (key, value) ← takeTarget? chars
    if value.isEmpty || value.head? = some '#' then return some (key, "")
    else
      let value ← readValue? environment earlier .plain value (value.length + 1)
      return some (key, String.ofList value)

/-- The environment with the assignments of lines up to the first one that is none. -/
def addLines (environment : Environment) (earlier : List (String × String)) :
    List (Option (List Char)) → Environment
  | [] => environment
  | none :: _ => environment
  | some line :: lines =>
    match environment.parseLine? earlier line with
    | none => environment
    | some none => environment.addLines earlier lines
    | some (some (key, value)) =>
      (environment.setNew key value).addLines ((key, value) :: earlier) lines

/-- The environment with the assignments of a file. -/
def addFile (environment : Environment) (text : String) : Environment :=
  environment.addLines [] (logicalLines text)

end Environment

end ShardQuery.Cli
