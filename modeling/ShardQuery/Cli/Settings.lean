import ShardQuery.Cli.Directory
import ShardQuery.Cli.Environment
import ShardQuery.Options
import ShardQuery.Yaml.Reader

/-!
# Settings

The settings of a program: those of the engine, and where its log goes. They are read from
a YAML file, which may be missing, and variables of the environment come before what the
file says.
-/

namespace ShardQuery

/-- The settings of an engine in a document. -/
def EngineConfig.ofYaml? (document : Yaml) : Option EngineConfig := do
  let entries ← document.toEntries?
  let standard := EngineConfig.standard
  let maxMemoryMb ← Yaml.withDefault? entries "max_memory_mb" standard.maxMemoryMb Yaml.toWord?
  let maxFanOut ← Yaml.withDefault? entries "max_fan_out" standard.maxFanOut Yaml.toWord?
  let defaultLimit ←
    Yaml.withDefault? entries "default_limit" standard.defaultLimit Yaml.toOptionalWord?
  let defaultTimeoutMs ←
    Yaml.withDefault? entries "default_timeout_ms" standard.defaultTimeoutMs Yaml.toOptionalWord?
  return ⟨maxMemoryMb, maxFanOut, defaultLimit, defaultTimeoutMs⟩

namespace Cli

/-- Where a log goes, and how it is written. -/
structure LogSettings where
  /-- The least importance of what is logged. -/
  level : String
  /-- The form of the log. -/
  format : String
  /-- Whether the log goes to the error output, to files, or to both. -/
  output : String
  /-- The directory of log files. -/
  directory : String
deriving DecidableEq, Repr

namespace LogSettings

/-- The log without settings of its own: warnings, in a compact form, on the error output. -/
def standard : LogSettings :=
  ⟨"warn", "compact", "stderr", "./logs"⟩

/-- The settings of a log in a document, with the standard ones where it has none. -/
def ofYaml? (document : Yaml) : Option LogSettings := do
  let entries ← document.toEntries?
  let level ← Yaml.withDefault? entries "level" standard.level Yaml.toText?
  let format ← Yaml.withDefault? entries "format" standard.format Yaml.toText?
  let output ← Yaml.withDefault? entries "output" standard.output Yaml.toText?
  let directory ← Yaml.withDefault? entries "directory" standard.directory Yaml.toText?
  return ⟨level, format, output, directory⟩

/-- Whether there are log files, for which a directory has to be made. -/
def usesFiles (settings : LogSettings) : Bool :=
  settings.output == "file" || settings.output == "both"

end LogSettings

/-- The settings of a program, those of the engine that runs its queries and those of its log. -/
structure Settings where
  /-- The settings of the engine. -/
  engine : EngineConfig
  /-- The settings of the log. -/
  log : LogSettings
deriving DecidableEq, Repr

/-- A reason why settings cannot be used, in the file that holds them or in the environment. -/
inductive SettingsError where
  /-- The file cannot be read. -/
  | unreadable
  /-- The file is no YAML, or has settings of another kind. -/
  | malformed
  /-- A variable has a value that is no number. -/
  | variable (name value : String)
deriving DecidableEq, Repr

/-- The wording of an error; of a variable that cannot be used it shows the name and the value. -/
def SettingsError.message : SettingsError → String
  | .unreadable => "Failed to read config file"
  | .malformed => "Failed to parse YAML"
  | .variable name value => s!"Invalid value for {name}: {value}"

namespace Settings

/-- The settings without a file, the standard ones throughout. -/
def standard : Settings :=
  ⟨.standard, .standard⟩

/-- The settings of a document. Parts that it does not have are the standard ones, entries it does
not know are skipped. -/
def ofYaml? (document : Yaml) : Option Settings := do
  let entries ← document.toEntries?
  let engine ← Yaml.withDefault? entries "engine" standard.engine EngineConfig.ofYaml?
  let log ← Yaml.withDefault? entries "logging" standard.log LogSettings.ofYaml?
  return ⟨engine, log⟩

/-- The settings of a file, which may be missing. -/
def ofFound : Found → Except SettingsError Settings
  | .nothing => .ok standard
  | .unreadable => .error .unreadable
  | .text content =>
    match (Yaml.parse? content).bind ofYaml? with
    | some settings => .ok settings
    | none => .error .malformed

/-- The number in a variable, if the variable is set. -/
def wordVariable (environment : Environment) (name : String) :
    Except SettingsError (Option Nat) :=
  match environment.get? name with
  | none => .ok none
  | some value =>
    match Numeral.decimal? value with
    | some n => .ok (some n)
    | none => .error (.variable name value)

/-- The variables that settings can be given by. -/
def settingsVariables : List String :=
  ["SHARDQL_MAX_MEMORY_MB", "SHARDQL_MAX_FAN_OUT", "SHARDQL_TIMEOUT_MS", "LOG_FORMAT",
    "LOG_OUTPUT", "LOG_DIR"]

/-- The settings with those of the environment in the place of their own. -/
def override (settings : Settings) (environment : Environment) :
    Except SettingsError Settings := do
  let maxMemoryMb ← wordVariable environment "SHARDQL_MAX_MEMORY_MB"
  let maxFanOut ← wordVariable environment "SHARDQL_MAX_FAN_OUT"
  let timeoutMs ← wordVariable environment "SHARDQL_TIMEOUT_MS"
  let engine := settings.engine
  let log := settings.log
  return {
    engine := { engine with
      maxMemoryMb := maxMemoryMb.getD engine.maxMemoryMb
      maxFanOut := maxFanOut.getD engine.maxFanOut
      defaultTimeoutMs := timeoutMs <|> engine.defaultTimeoutMs }
    log := { log with
      format := (environment.get? "LOG_FORMAT").getD log.format
      output := (environment.get? "LOG_OUTPUT").getD log.output
      directory := (environment.get? "LOG_DIR").getD log.directory } }

/-- The settings of a file and the environment. -/
def load (directory : Directory) (environment : Environment) (path : String) :
    Except SettingsError Settings := do
  (← ofFound (directory.find path)).override environment

end Settings

end Cli

end ShardQuery
