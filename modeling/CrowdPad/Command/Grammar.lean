import CrowdPad.Text.Words
import CrowdPad.Data.Decode

/-! The settings of a team's command language: the marker that starts a run of commands and the
separators between delay and duration. Settings that would make a message ambiguous are refused. -/

namespace CrowdPad

/-- Settings of the command language. -/
structure Grammar where
  marker : String := "+"
  separators : List String := ["+", ",", ";", ":", "->"]
deriving Repr, DecidableEq, Inhabited

/-- Why settings of the command language are refused. -/
inductive GrammarFault where
  | marker (text : String)
  | noSeparator
  | separator (text : String)
deriving Repr, DecidableEq

def GrammarFault.message : GrammarFault → String
  | .marker text =>
    "action prefix '" ++ text ++ "' must be non-empty without digits or whitespace"
  | .noSeparator => "at least one separator is required"
  | .separator text => "separator '" ++ text ++ "' is not allowed"

namespace Grammar

/-- Text that is empty or could be taken for a number or for two words. -/
def isUnusable (text : String) : Bool :=
  text.isEmpty || text.toList.any fun c => Text.isBlank c || Text.isDigit c

/-- The first fault of the settings. A lone minus sign would clash with negative numbers. -/
def fault? (g : Grammar) : Option GrammarFault :=
  if isUnusable g.marker then some (.marker g.marker)
  else if g.separators.isEmpty then some .noSeparator
  else (g.separators.find? fun s => isUnusable s || s == "-").map .separator

def toValue (g : Grammar) : Value :=
  .record [("action_prefix", .text g.marker), ("separators", .list (g.separators.map .text))]

end Grammar

def Value.toGrammar? (v : Value) : Option Grammar := do
  match ← v.toFields? ["action_prefix", "separators"] with
  | [marker, separators] =>
    let default : Grammar := {}
    return {
      marker := ← orDefault default.marker toText? marker
      separators := ← orDefault default.separators (toList? toText?) separators }
  | _ => none

end CrowdPad
