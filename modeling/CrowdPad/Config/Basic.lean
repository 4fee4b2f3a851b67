import CrowdPad.Profile.Document
import CrowdPad.Team.Config
import CrowdPad.Telemetry.Log

/-! The configuration of the program: a TOML document that declares profiles and teams. -/

namespace CrowdPad

/-- A declared profile: a document of its own, or part of the configuration. -/
inductive ProfileSource where
  | file (path : String)
  | inline (document : Profile.Document)
deriving Repr, DecidableEq

/-- Where logs and events go. -/
structure TelemetryConfig where
  logFolder : Option String := none
  eventLog : Option String := none
  minLevel : Level := .info
deriving Repr, DecidableEq, Inhabited

/-- A declared team. -/
structure TeamEntry where
  name : String
  profile : String
  target : Target := {}
  /-- The command language of the team, where it is not the common one. -/
  grammar : Option Grammar := none
  allowMacroChanges : Bool := false
  macroFile : Option String := none
  persistentMacros : Bool := false
  spamProtection : Bool := true
  randomMs : Option Nat := none
deriving Repr, DecidableEq, Inhabited

/-- The configuration of the program. -/
structure ProgramConfig where
  grammar : Grammar := {}
  profiles : List ProfileSource := []
  telemetry : TelemetryConfig := {}
  macroLimits : MacroLimits := {}
  remote : RemoteSettings := {}
  teams : List TeamEntry := []
deriving Repr, DecidableEq, Inhabited

/-- Why a configuration cannot be loaded. -/
inductive ConfigFault where
  | read (path : String) (fault : FileFault)
  | parse (path : String)
deriving Repr, DecidableEq

namespace ConfigFault

/-- What was being done. -/
def summary : ConfigFault → String
  | .read path _ => "reading runtime config " ++ path
  | .parse path => "parsing " ++ path

def cause : ConfigFault → String
  | .read _ fault => fault.message
  | .parse _ => "not a configuration"

def message (fault : ConfigFault) : String := fault.summary ++ ": " ++ fault.cause

end ConfigFault

end CrowdPad

namespace CrowdPad.Value

def toProfileSource? (v : Value) : Option ProfileSource :=
  match v.field? "path" with
  | some (.text path) => some (.file path)
  | _ => v.toProfile?.map .inline

def toTelemetryConfig? (v : Value) : Option TelemetryConfig := do
  match ← v.toFields? ["log_dir", "event_log", "min_level"] with
  | [logFolder, eventLog, minLevel] =>
    return {
      logFolder := ← optional toText? logFolder
      eventLog := ← optional toText? eventLog
      minLevel := ← orDefault .info toLevel? minLevel }
  | _ => none

def toTeamEntry? (v : Value) : Option TeamEntry := do
  match ← v.toFields? ["name", "profile", "target", "parser", "allow_macro_changes", "macro_file",
      "persistent_macros", "spam_protection", "random_input_interval_ms"] with
  | [name, profile, target, grammar, allowMacroChanges, macroFile, persistentMacros,
      spamProtection, randomMs] =>
    return {
      name := ← required toText? name
      profile := ← required toText? profile
      target := ← orDefault {} toTarget? target
      grammar := ← optional toGrammar? grammar
      allowMacroChanges := ← orDefault false toBool? allowMacroChanges
      macroFile := ← optional toText? macroFile
      persistentMacros := ← orDefault false toBool? persistentMacros
      spamProtection := ← orDefault true toBool? spamProtection
      randomMs := ← optional toNat64? randomMs }
  | _ => none

def toProgramConfig? (v : Value) : Option ProgramConfig := do
  match ← v.toFields? ["parser", "profiles", "telemetry", "macro_limits", "remote", "teams"] with
  | [grammar, profiles, telemetry, macroLimits, remote, teams] =>
    return {
      grammar := ← orDefault {} toGrammar? grammar
      profiles := ← orDefault [] (toList? toProfileSource?) profiles
      telemetry := ← orDefault {} toTelemetryConfig? telemetry
      macroLimits := ← orDefault {} toMacroLimits? macroLimits
      remote := ← orDefault {} toRemoteSettings? remote
      teams := ← orDefault [] (toList? toTeamEntry?) teams }
  | _ => none

end CrowdPad.Value

namespace CrowdPad

def ProfileSource.toValue : ProfileSource → Value
  | .file path => .record [("path", .text path)]
  | .inline document => document.toValue

def TeamEntry.toValue (entry : TeamEntry) : Value :=
  .record [("name", .text entry.name), ("profile", .text entry.profile),
    ("target", entry.target.toValue), ("parser", (entry.grammar.map Grammar.toValue).getD .null),
    ("allow_macro_changes", .bool entry.allowMacroChanges),
    ("macro_file", .text? entry.macroFile), ("persistent_macros", .bool entry.persistentMacros),
    ("spam_protection", .bool entry.spamProtection),
    ("random_input_interval_ms", .nat? entry.randomMs)]

def TelemetryConfig.toValue (c : TelemetryConfig) : Value :=
  .record [("log_dir", .text? c.logFolder), ("event_log", .text? c.eventLog),
    ("min_level", .text c.minLevel.name)]

def ProgramConfig.toValue (c : ProgramConfig) : Value :=
  .record [("parser", c.grammar.toValue),
    ("profiles", .list (c.profiles.map ProfileSource.toValue)),
    ("telemetry", c.telemetry.toValue), ("macro_limits", c.macroLimits.toValue),
    ("remote", c.remote.toValue), ("teams", .list (c.teams.map TeamEntry.toValue))]

end CrowdPad

namespace CrowdPad.ProgramConfig

/-- The configuration with its paths counted from a folder. -/
def countedFrom (folder : String) (c : ProgramConfig) : ProgramConfig :=
  { c with
    profiles := c.profiles.map fun source =>
      match source with
      | .file path => .file (Path.join folder path)
      | .inline document => .inline document
    telemetry := { c.telemetry with
      logFolder := c.telemetry.logFolder.map (Path.join folder)
      eventLog := c.telemetry.eventLog.map (Path.join folder) }
    teams := c.teams.map fun entry =>
      { entry with macroFile := entry.macroFile.map (Path.join folder) } }

/-- Loads the configuration at a path. The paths in it count from the folder around it. -/
def load (fs : Files) (path : String) : Except ConfigFault ProgramConfig :=
  match fs.read path with
  | .error fault => .error (.read path fault)
  | .ok content =>
    match (Toml.read content).bind Value.toProgramConfig? with
    | none => .error (.parse path)
    | some config => .ok (config.countedFrom ((Path.parent? path).getD "."))

def teamConfig (c : ProgramConfig) (entry : TeamEntry) : TeamConfig :=
  { name := entry.name
    target := entry.target
    grammar := entry.grammar.getD c.grammar
    macros :=
      { allowChanges := entry.allowMacroChanges, file := entry.macroFile
        persistent := entry.persistentMacros, limits := c.macroLimits }
    spamProtection := entry.spamProtection
    randomMs := entry.randomMs.filter fun ms => 0 < ms
    remote := c.remote }

end CrowdPad.ProgramConfig
