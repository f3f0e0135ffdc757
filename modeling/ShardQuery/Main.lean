import ShardQuery.Cli.Command

/-!
# The Program

Reads the files and the variables that a command line can depend on, performs it, and writes
what it says. Everything else is decided by `World.perform`.
-/

namespace ShardQuery.Cli

/-- What is found at a path, without telling why a file cannot be read. -/
def lookAt (path : String) : IO Found := do
  try
    return .text (← IO.FS.readFile path)
  catch
    | .noFileOrDirectory .. => return .nothing
    | _ => return .unreadable

/-- The paths of a command line that something is found at. -/
def lookAround (paths : List String) : IO Directory := do
  let files ← paths.mapM fun path => do return (path, ← lookAt path)
  return ⟨files.filter fun file => decide (file.2 ≠ .nothing)⟩

/-- The variables of some names, as far as the environment has them. -/
def readVariables (names : List String) : IO Environment := do
  let entries ← names.filterMapM fun name => do
    return (← IO.getEnv name).map fun value => (name, value)
  return ⟨entries⟩

/-- A fresh identity, made of sixteen random octets. -/
def freshId : IO Uuid := do
  return .ofRandom (← IO.getRandomBytes 16).data.toList

/-- The directory and the environment as far as a command line can depend on them. -/
def readWorld (arguments : List String) : IO World := do
  let paths := ((Invocation.parse arguments).map Invocation.paths).toOption.getD []
  let directory ← lookAround (".env" :: paths)
  let names := Environment.namesIn (((directory.find ".env").text?).getD "")
  return ⟨directory, ← readVariables (Settings.settingsVariables ++ names)⟩

/-- Writes what a command has done: its output, its token and its error. -/
def writeReport (report : Report) : IO Unit := do
  if let some path := report.logDirectory then IO.FS.createDirAll path
  IO.print report.output
  if let some token := report.token then IO.eprintln s!"continuation: {token.toBase64}"
  if let some error := report.error then
    IO.eprintln s!"Error: {error.message}"
    if let some cause := error.cause? then IO.eprintln s!"\nCaused by:\n    {cause}"

/-- Writes what has become of a command line. -/
def writeOutcome : Outcome → IO Unit
  | .usage error => IO.eprintln s!"error: {error.message}"
  | .noLog => IO.eprintln "error: log files cannot be written"
  | .report report => writeReport report

end ShardQuery.Cli

open ShardQuery.Cli in
/-- The program: it looks at the files and variables that a command line can name, carries the
command out, and writes the outcome. -/
def main (arguments : List String) : IO UInt32 := do
  let world ← readWorld arguments
  let outcome := world.perform (← freshId) arguments
  writeOutcome outcome
  return UInt32.ofNat outcome.exitStatus
