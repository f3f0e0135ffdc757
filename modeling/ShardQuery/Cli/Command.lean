import ShardQuery.Cli.Arguments
import ShardQuery.Cli.Settings
import ShardQuery.Cli.Tables
import ShardQuery.Execution
import ShardQuery.Json.Pretty
import ShardQuery.Text.Quoted

/-!
# Carrying Out Commands

What a command line does, as a function of the arguments and of what the program sees: the
files around it and its environment. Before a command is carried out, the variables of the
file `.env` are added to the environment, the command line is understood, the settings are
loaded and the directory of log files is made, in this order; what fails first decides.

Main definition: `World.perform` — what becomes of a command line.
-/

namespace ShardQuery.Cli

/-! ### Errors -/

/-- A reason why a command fails, from its settings to the query that it runs. -/
inductive CommandError where
  /-- The settings cannot be used. -/
  | settings (path : String) (error : SettingsError)
  /-- There is no plan to be run. -/
  | preparation (error : QueryError)
  /-- A plan cannot be read. -/
  | unreadable (path : String)
  /-- A plan is rejected. -/
  | plan (error : PlanError)
  /-- A bind variable has no name. -/
  | binding (text : String)
  /-- The rows cannot be read. -/
  | data (path : String)
  /-- The query fails. -/
  | query (error : QueryError)
  /-- The query does not come to an end. -/
  | endless
deriving DecidableEq, Repr

namespace CommandError

/-- The wording of an error, without the error that may be behind it. -/
def message : CommandError → String
  | .settings path _ => s!"loading {path}"
  | .preparation _ => "preparing plan"
  | .unreadable path => s!"reading {path}"
  | .plan error => error.message
  | .binding text => s!"bind variable {Quoted.quote text} is not NAME=JSON"
  | .data path => s!"no tables in {path}"
  | .query error => error.message
  | .endless => "too many rows"

/-- The wording of what is behind an error, if something is. -/
def cause? : CommandError → Option String
  | .settings _ error => some error.message
  | .preparation error => some error.message
  | _ => none

end CommandError

/-! ### Outcomes -/

/-- What a command has done: its output, its token and its error, and the directory it made for log
files. -/
structure Report where
  /-- The text on the output. -/
  output : String
  /-- The token to go on with. -/
  token : Option Token
  /-- Why the command failed, if it did. -/
  error : Option CommandError
  /-- The directory that was made for log files, if there are any. -/
  logDirectory : Option String

/-- What becomes of a command line: it is refused, breaks down or is carried out. -/
inductive Outcome where
  /-- It cannot be followed. -/
  | usage (error : UsageError)
  /-- The log files cannot be written. -/
  | noLog
  /-- Its command has been carried out. -/
  | report (report : Report)

/-- The exit status: zero for success, one for a failure, two for a command line that cannot
be followed, and a high number for a breakdown. -/
def Outcome.exitStatus : Outcome → Nat
  | .usage _ => 2
  | .noLog => 101
  | .report done => if done.error.isSome then 1 else 0

/-! ### Bind variables -/

/-- The value that a text stands for: that of a JSON document, or the text itself. -/
def valueOfText (text : String) : Value :=
  (Value.parse? text).getD (.string text)

/-- Binds a variable given by its name, `=` and its value. -/
def bindNamed (bindings : Bindings) (text : String) : Except CommandError Bindings :=
  let name := text.toList.takeWhile (· != '=')
  match text.toList.drop name.length with
  | [] => .error (.binding text)
  | _ :: value =>
    .ok (bindings.bind (String.ofList (trimWhiteSpace name)) (valueOfText (String.ofList value)))

/-- Binds the variables at positions from a position on. -/
def bindPositions (bindings : Bindings) (position : Nat) :
    List String → Except QueryError Bindings
  | [] => .ok bindings
  | text :: texts => do
    let bindings ← bindings.bindPosition (UInt32.ofNat position) (valueOfText text)
    bindPositions bindings (position + 1) texts

/-- The bind variables of a command: the named ones in their order, then the positional ones,
numbered from one. -/
def bindingsOf (command : RunCommand) : Except CommandError Bindings := do
  let named ← command.binds.foldlM bindNamed Bindings.empty
  (bindPositions named 1 command.positions).mapError .query

/-! ### Plans -/

/-- The plan of a text, once it is read as a document and found valid. -/
def planOfText (text : String) : Except PlanError Plan :=
  Plan.decode (Json.parse? text)

/-- The plan of a file that is to be run. -/
def preparePlan (directory : Directory) (path : String) : Except QueryError Plan :=
  match (directory.find path).text? with
  | none => .error .unreadablePlan
  | some text => (planOfText text).mapError .plan

/-- The fingerprint of the plan of a file. -/
def fingerprintOf (directory : Directory) (path : String) : Except CommandError String :=
  match (directory.find path).text? with
  | none => .error (.unreadable path)
  | some text => ((planOfText text).mapError .plan).map Plan.fingerprint

/-! ### Queries -/

/-- The options that a command gives; those that it cannot give are the standard ones. -/
def optionsOf (command : RunCommand) : QueryOptions :=
  { QueryOptions.standard with limit := command.limit, maxMemoryMb := command.maxMemoryMb }

/-- The tables of a file, all of which are read before the query is started. -/
def loadTables (directory : Directory) (path : String) :
    Except CommandError (List (String × ShardRows)) :=
  match (directory.find path).text?.bind tablesOfText? with
  | some tables => .ok tables
  | none => .error (.data path)

/-- The text of rows, each as a compact document on a line of its own. -/
def rowLines (rows : List Row) : String :=
  String.join (rows.map fun row => row.render ++ "\n")

/-- The rows of a query that has been started, and the token to go on with if there are
more: all rows, or those of one batch. -/
def fetchRows (engine : Engine) (query : Query) (fresh : Uuid) (execution : Execution)
    (store : InMemory) (all : Bool) : Option (Except QueryError (List Row × Option Token)) :=
  let stages := query.plan.steps.length
  let supply := store.supply query.plan.scan.shards.length
  let held := execution.heldRows
  let budget := stepBudget stages (held + supply.rows) supply
  let reader := InMemory.reader 0
  if all then
    let batches := held + batchBudget stages supply
    (engine.collectAll reader batches budget fresh query store).map fun outcome =>
      outcome.result.map fun rows => (rows, none)
  else
    (execution.nextBatch reader budget store).map fun outcome =>
      outcome.result.map fun batch => (batch.rows, batch.token)

/-- Runs a query: the plan, the bind variables, the token and the rows are read in this
order, then the query is started. -/
def runQuery (directory : Directory) (config : EngineConfig) (fresh : Uuid)
    (command : RunCommand) : Except CommandError (String × Option Token) := do
  let plan ← (preparePlan directory command.plan).mapError .preparation
  let bindings ← bindingsOf command
  let token ← (command.token.mapM Token.ofBase64).mapError .query
  let tables ← loadTables directory command.data
  let engine : Engine := ⟨config, Registry.standard Registry.standardVersion⟩
  let query : Query := ⟨plan, bindings, optionsOf command, token⟩
  let execution ← (Execution.start engine query fresh).mapError .query
  match fetchRows engine query fresh execution (storeOf command.pageSize tables) command.all with
  | none => throw .endless
  | some (.error error) => throw (.query error)
  | some (.ok (rows, token)) => return (rowLines rows, token)

/-! ### Command lines -/

/-- The name and the version of the program. -/
def versionLine : String :=
  "shardql 0.1.0"

/-- The overview of the commands and their options, line by line. -/
def helpLines : List String :=
  ["Run distributed query plans against sharded data",
    "",
    "shardql [--config FILE] run --plan FILE --data FILE [--bind NAME=JSON]...",
    "        [--bind-pos JSON]... [--limit ROWS] [--token TOKEN] [--all]",
    "        [--page-size ROWS] [--max-memory-mb MB]",
    "shardql [--config FILE] fingerprint --plan FILE",
    "shardql [--config FILE] functions",
    "shardql help",
    "shardql --version"]

/-- The signatures of the functions that are always there. -/
def functionsText : String :=
  (Json.array ((Registry.standard Registry.standardVersion).signatures.map
    Signature.toJson)).pretty

/-- What a program sees of its surroundings when it is started: files and environment. -/
structure World where
  /-- The files around it. -/
  directory : Directory
  /-- The environment that it is started with. -/
  environment : Environment

namespace World

/-- The environment with the variables of the file `.env`. -/
def fullEnvironment (world : World) : Environment :=
  match (world.directory.find ".env").text? with
  | some text => world.environment.addFile text
  | none => world.environment

/-- The output of a command, and its token. -/
def carryOut (world : World) (config : EngineConfig) (fresh : Uuid) :
    Command → Except CommandError (String × Option Token)
  | .run command => runQuery world.directory config fresh command
  | .fingerprint path =>
    (fingerprintOf world.directory path).map fun fingerprint => (fingerprint ++ "\n", none)
  | .functions => .ok (functionsText ++ "\n", none)
  | .help => .ok (String.join (helpLines.map (· ++ "\n")), none)
  | .version => .ok (versionLine ++ "\n", none)

/-- The report of a command from its result; a command that fails has no output and no token. -/
def reportOf (logDirectory : Option String)
    (result : Except CommandError (String × Option Token)) : Report :=
  match result with
  | .ok (output, token) => ⟨output, token, none, logDirectory⟩
  | .error error => ⟨"", none, some error, logDirectory⟩

/-- What becomes of a command under settings: it is carried out, and its log files need a directory
that can be made. -/
def performUnder (world : World) (settings : Settings) (fresh : Uuid) (command : Command) :
    Outcome :=
  let result := world.carryOut settings.engine fresh command
  if !settings.log.usesFiles then .report (reportOf none result)
  else if (world.directory.make? settings.log.directory).isNone then .noLog
  else .report (reportOf (some settings.log.directory) result)

/-- What becomes of a command line. `fresh` is the identity of an execution that is not
resumed. -/
def perform (world : World) (fresh : Uuid) (arguments : List String) : Outcome :=
  match Invocation.parse arguments with
  | .error error => .usage error
  | .ok ⟨path, command⟩ =>
    if command = .help ∨ command = .version then
      .report (reportOf none (world.carryOut .standard fresh command))
    else
      match Settings.load world.directory world.fullEnvironment path with
      | .error error => .report (reportOf none (.error (.settings path error)))
      | .ok settings => world.performUnder settings fresh command

/-- The entries that a command has added to the working directory, in ascending order. -/
def created (world : World) (report : Report) : List String :=
  (report.logDirectory.bind world.directory.make?).getD []

end World

end ShardQuery.Cli
