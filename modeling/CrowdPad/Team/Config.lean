import CrowdPad.Dispatch.Remote
import CrowdPad.Macro.File
import CrowdPad.SetupError

/-! The settings of one team. -/

namespace CrowdPad

/-- What a team may do with macros. -/
structure MacroSettings where
  /-- Whether macros may be added, changed and removed while the team runs. -/
  allowChanges : Bool := false
  /-- The file that macros are loaded from. -/
  file : Option String := none
  /-- Whether changes are written back to the file. -/
  persistent : Bool := false
  limits : MacroLimits := {}
deriving Repr, DecidableEq, Inhabited

/-- The settings of one team. -/
structure TeamConfig where
  name : String
  target : Target
  grammar : Grammar := {}
  macros : MacroSettings := {}
  /-- Whether a message is ignored while the same one by the same author still runs. -/
  spamProtection : Bool := true
  /-- How often a random verb may be played, if at all. -/
  randomMs : Option Nat := none
  remote : RemoteSettings := {}
  /-- How many entries diagnostics keep of each sort. -/
  diagnosticsCapacity : Nat := 32
deriving Repr, DecidableEq, Inhabited

def TeamConfig.toValue (c : TeamConfig) : Value :=
  .record [("name", .text c.name), ("target", c.target.toValue), ("parser", c.grammar.toValue),
    ("allow_changes", .bool c.macros.allowChanges), ("macro_file", .text? c.macros.file),
    ("persistent", .bool c.macros.persistent), ("limits", c.macros.limits.toValue),
    ("spam_protection", .bool c.spamProtection), ("random_input_ms", .nat? c.randomMs),
    ("remote", c.remote.toValue), ("diagnostics_capacity", .nat c.diagnosticsCapacity)]

def Value.toTeamConfig? (v : Value) : Option TeamConfig := do
  match ← v.toFields? ["name", "target", "parser", "allow_changes", "macro_file", "persistent",
      "limits", "spam_protection", "random_input_ms", "remote", "diagnostics_capacity"] with
  | [name, target, grammar, allowChanges, file, persistent, limits, spamProtection, randomMs,
      remote, diagnosticsCapacity] =>
    return {
      name := ← required toText? name
      target := ← orDefault {} toTarget? target
      grammar := ← orDefault {} toGrammar? grammar
      macros := {
        allowChanges := ← orDefault false toBool? allowChanges
        file := ← optional toText? file
        persistent := ← orDefault false toBool? persistent
        limits := ← orDefault {} toMacroLimits? limits }
      spamProtection := ← orDefault true toBool? spamProtection
      randomMs := ← optional toNat64? randomMs
      remote := ← orDefault {} toRemoteSettings? remote
      diagnosticsCapacity := ← orDefault 32 toNat64? diagnosticsCapacity }
  | _ => none

/-- Why a team cannot start, or an operation on it fails. -/
inductive TeamError where
  | setup (error : SetupError)
  | macros (error : MacroError)
  | storage (fault : StorageFault)
  | unknownTeam (name : String)
  /-- The log of the team cannot be opened. -/
  | log (fault : FileFault)
deriving Repr, DecidableEq

def TeamError.message : TeamError → String
  | .setup error => error.message
  | .macros error => error.message
  | .storage fault => "macro storage: " ++ fault.message
  | .unknownTeam name => "unknown team '" ++ name ++ "'"
  | .log fault => fault.message

end CrowdPad
