import ShardQuery.Text.Numeral

/-!
# Command Line Arguments

A command line names a command and gives it options. An option is a word behind two hyphens;
it is a switch, or it has a value, which is joined to it by `=` or is the next argument. An
argument that begins with a hyphen is not taken for a value, except for a single hyphen.
Only options that collect may be repeated, and a notice ends the command line.

Main definitions:

* `takeOptions` — the options at the beginning of arguments;
* `Invocation.parse` — what a command line asks for.
-/

namespace ShardQuery.Cli

/-- A reason why a command line cannot be followed. -/
inductive UsageError where
  /-- There is no command. -/
  | noCommand
  /-- There is no such command. -/
  | unknownCommand (name : String)
  /-- There is no such option, or no place for an argument. -/
  | unexpected (argument : String)
  /-- An option has no value. -/
  | noValue (option : String)
  /-- A switch has a value. -/
  | needlessValue (option : String)
  /-- An option that does not collect is repeated. -/
  | repeated (option : String)
  /-- An option is missing. -/
  | missing (option : String)
  /-- An option has an unusable value. -/
  | badValue (option value : String)
deriving DecidableEq, Repr

/-- The wording of an error, with the option or the argument that it is about, if there is one. -/
def UsageError.message : UsageError → String
  | .noCommand => "a command is required"
  | .unknownCommand name => s!"unrecognized command '{name}'"
  | .unexpected argument => s!"unexpected argument '{argument}'"
  | .noValue option => s!"a value is required for '--{option}'"
  | .needlessValue option => s!"'--{option}' takes no value"
  | .repeated option => s!"'--{option}' cannot be used multiple times"
  | .missing option => s!"'--{option}' is required"
  | .badValue option value => s!"invalid value '{value}' for '--{option}'"

/-! ### Options -/

/-- Whether an option has a value, and whether it may be repeated. -/
inductive OptionKind where
  /-- No value, and what comes behind it does not matter. -/
  | notice
  /-- No value. -/
  | switch
  /-- One value. -/
  | single
  /-- Any number of values. -/
  | collecting
deriving DecidableEq, Repr

/-- The options that may be given at some place. -/
abbrev OptionTable : Type :=
  List (String × OptionKind)

/-- The kind of the option of a name, none if no such option may be given at this place. -/
def OptionTable.kind? (table : OptionTable) (name : String) : Option OptionKind :=
  (table.find? (·.1 == name)).map (·.2)

/-- The name of an option and the value that is joined to it. -/
def splitOption (word : List Char) : String × Option String :=
  let name := word.takeWhile (· != '=')
  match word.drop name.length with
  | [] => (String.ofList name, none)
  | _ :: value => (String.ofList name, some (String.ofList value))

/-- Whether an argument begins like an option, so that it is not taken for a value. A single hyphen
by itself does not. -/
def looksLikeOption (argument : String) : Bool :=
  argument.toList.head? = some '-' && argument != "-"

/-- The options that have a letter, which stands behind a single hyphen. -/
def letterNames : List (Char × String) :=
  [('h', "help"), ('V', "version")]

/-- The name of a notice with a letter. -/
def OptionTable.noticeOfLetter? (table : OptionTable) (letter : Char) : Option String := do
  let (_, name) ← letterNames.find? (·.1 == letter)
  if table.kind? name = some .notice then return name else none

/-- The options at the beginning of arguments, each with its value, and the arguments from
the first one on that is no option. Two hyphens by themselves end the options; nothing may
come behind them. -/
def takeOptions (table : OptionTable) :
    List String → Except UsageError (List (String × String) × List String)
  | [] => .ok ([], [])
  | argument :: rest =>
    match argument.toList with
    | ['-', '-'] =>
      match rest with
      | [] => .ok ([], [])
      | next :: _ => .error (.unexpected next)
    | '-' :: '-' :: word =>
      match splitOption word with
      | (name, joined) =>
        match table.kind? name, joined, rest with
        | none, _, _ => .error (.unexpected argument)
        | some .notice, some _, _ | some .switch, some _, _ => .error (.needlessValue name)
        | some .notice, none, _ => .ok ([(name, "")], [])
        | some .switch, none, rest => do
          let (options, rest) ← takeOptions table rest
          return ((name, "") :: options, rest)
        | some _, some value, rest => do
          let (options, rest) ← takeOptions table rest
          return ((name, value) :: options, rest)
        | some _, none, [] => .error (.noValue name)
        | some _, none, value :: rest => do
          if looksLikeOption value then throw (.noValue name)
          let (options, rest) ← takeOptions table rest
          return ((name, value) :: options, rest)
    | '-' :: letter :: _ =>
      match table.noticeOfLetter? letter with
      | some name => .ok ([(name, "")], [])
      | none => .error (.unexpected argument)
    | _ => .ok ([], argument :: rest)

/-- The values given for an option, in their order; a switch that is given has an empty one. -/
def valuesOf (options : List (String × String)) (name : String) : List String :=
  (options.filter (·.1 == name)).map (·.2)

/-- The first option that is repeated though it does not collect. -/
def repeated? (table : OptionTable) (options : List (String × String)) : Option String :=
  (table.find? fun (name, kind) =>
    decide (kind ≠ .collecting) && decide (1 < (valuesOf options name).length)).map (·.1)

/-- Accepts options none of which is repeated unless it collects. -/
def requireUnrepeated (table : OptionTable) (options : List (String × String)) :
    Except UsageError Unit :=
  match repeated? table options with
  | some name => .error (.repeated name)
  | none => .ok ()

/-! ### Values -/

/-- Reads the value of an option if it is given. -/
def valueOf? {α : Type} (options : List (String × String)) (name : String)
    (read : String → Option α) : Except UsageError (Option α) :=
  match (valuesOf options name).head? with
  | none => .ok none
  | some value =>
    match read value with
    | some a => .ok (some a)
    | none => .error (.badValue name value)

/-- Reads the value of an option that must be given. -/
def requiredValue {α : Type} (options : List (String × String)) (name : String)
    (read : String → Option α) : Except UsageError α := do
  match ← valueOf? options name read with
  | some a => return a
  | none => throw (.missing name)

/-- The name of a file. It is not empty. -/
def pathOfText? (text : String) : Option String :=
  if text.isEmpty then none else some text

/-! ### Commands -/

/-- A query to be run, as a command line describes it: files, bind variables, limits and a token. -/
structure RunCommand where
  /-- The file of the plan. -/
  plan : String
  /-- The file of the rows. -/
  data : String
  /-- The named bind variables, each as a name, `=` and a value. -/
  binds : List String
  /-- The values of the positional bind variables. -/
  positions : List String
  /-- The most rows of a batch. -/
  limit : Option Nat
  /-- The token to go on with. -/
  token : Option String
  /-- Whether all batches are asked for. -/
  all : Bool
  /-- The most rows of a page. -/
  pageSize : Nat
  /-- The memory limit in units of `2 ^ 20` bytes. -/
  maxMemoryMb : Option Nat
deriving DecidableEq, Repr

/-- What can be asked for, by the name of a command or by a notice among the options. -/
inductive Command where
  /-- The rows of a query. -/
  | run (command : RunCommand)
  /-- The fingerprint of a plan in a file. -/
  | fingerprint (plan : String)
  /-- The signatures of the functions. -/
  | functions
  /-- An overview of the commands. -/
  | help
  /-- The version of the program. -/
  | version
deriving DecidableEq, Repr

/-- The settings file if none is named before or behind the command. -/
def standardSettingsPath : String :=
  "./config.yaml"

/-- How many rows a page has at most if nothing else is asked for. -/
def standardPageSize : Nat :=
  100

/-- The options that every command has, and that may also stand before it. -/
def commonOptions : OptionTable :=
  [("config", .single), ("help", .notice)]

/-- The options that may stand before a command; the version can be asked for only there. -/
def outerOptions : OptionTable :=
  commonOptions ++ [("version", .notice)]

/-- The options of a command by its name, none if there is no such command. -/
def commandOptions? (command : String) : Option OptionTable :=
  match command with
  | "run" => some (commonOptions ++
      [("plan", .single), ("data", .single), ("bind", .collecting), ("bind-pos", .collecting),
        ("limit", .single), ("token", .single), ("all", .switch), ("page-size", .single),
        ("max-memory-mb", .single)])
  | "fingerprint" => some (commonOptions ++ [("plan", .single)])
  | "functions" => some commonOptions
  | _ => none

/-- The command of a name and its options. -/
def commandOf (name : String) (options : List (String × String)) : Except UsageError Command :=
  match name with
  | "run" => do
    let limit ← valueOf? options "limit" Numeral.decimal?
    let pageSize ← valueOf? options "page-size" Numeral.decimal?
    let maxMemoryMb ← valueOf? options "max-memory-mb" Numeral.decimal?
    return .run {
      plan := ← requiredValue options "plan" pathOfText?
      data := ← requiredValue options "data" pathOfText?
      binds := valuesOf options "bind"
      positions := valuesOf options "bind-pos"
      limit := limit
      token := (valuesOf options "token").head?
      all := !(valuesOf options "all").isEmpty
      pageSize := pageSize.getD standardPageSize
      maxMemoryMb := maxMemoryMb }
  | "fingerprint" => do return .fingerprint (← requiredValue options "plan" pathOfText?)
  | "functions" => .ok .functions
  | _ => .error (.unknownCommand name)

/-- What a command line asks for: a command, and the settings to carry it out under. -/
structure Invocation where
  /-- The settings file. -/
  settingsPath : String
  /-- The command. -/
  command : Command
deriving DecidableEq, Repr

namespace Invocation

/-- The command that options by themselves ask for. -/
def notice? (options : List (String × String)) : Option Command :=
  if !(valuesOf options "help").isEmpty then some .help
  else if !(valuesOf options "version").isEmpty then some .version
  else none

/-- The command of a name and arguments, and the settings file named behind it. -/
def parseCommand (name : String) (arguments : List String) :
    Except UsageError (Command × Option String) := do
  match commandOptions? name with
  | none => throw (.unknownCommand name)
  | some table =>
    let (options, rest) ← takeOptions table arguments
    if let argument :: _ := rest then throw (.unexpected argument)
    requireUnrepeated table options
    let settingsPath ← valueOf? options "config" pathOfText?
    match notice? options with
    | some command => return (command, settingsPath)
    | none => return (← commandOf name options, settingsPath)

/-- What a command line asks for. The settings file may be named before and behind the
command; the latter counts. -/
def parse (arguments : List String) : Except UsageError Invocation := do
  let (options, rest) ← takeOptions outerOptions arguments
  requireUnrepeated outerOptions options
  let outer ← valueOf? options "config" pathOfText?
  match notice? options, rest with
  | some command, _ => return ⟨outer.getD standardSettingsPath, command⟩
  | none, [] => throw .noCommand
  | none, "help" :: names =>
    match names.find? fun name => (commandOptions? name).isNone with
    | some name => throw (.unknownCommand name)
    | none => return ⟨outer.getD standardSettingsPath, .help⟩
  | none, name :: rest =>
    let (command, inner) ← parseCommand name rest
    return ⟨(inner <|> outer).getD standardSettingsPath, command⟩

/-- The files that a command line names; together with `.env` they are all that carrying it out
reads. -/
def paths (invocation : Invocation) : List String :=
  invocation.settingsPath ::
    match invocation.command with
    | .run command => [command.plan, command.data]
    | .fingerprint plan => [plan]
    | _ => []

end Invocation

end ShardQuery.Cli
