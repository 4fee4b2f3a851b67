import CrowdPad.Command.Grammar
import CrowdPad.Target
import CrowdPad.Verb.Basic

/-! What can be wrong with the configuration of verbs, profiles and teams. -/

namespace CrowdPad

/-- A fault in the configuration. -/
inductive SetupError where
  | unknownProfile (name : String)
  | invalidVerb (verb : String) (fault : VerbFault)
  | duplicateName (name : String)
  | danglingSynonym (synonym target : String)
  | unknownRandomVerb (name : String)
  | invalidGrammar (fault : GrammarFault)
  | invalidTarget (fault : TargetFault)
  | duplicateTeam (name : String)
  | brokenProfile (profile reason : String)
deriving Repr, DecidableEq

def SetupError.message : SetupError → String
  | .unknownProfile name => "unknown verb profile '" ++ name ++ "'"
  | .invalidVerb verb fault => "verb '" ++ verb ++ "': " ++ fault.message
  | .duplicateName name => "name '" ++ name ++ "' is defined more than once"
  | .danglingSynonym synonym target =>
    "alias '" ++ synonym ++ "' points to unknown verb '" ++ target ++ "'"
  | .unknownRandomVerb name => "random weight references unknown verb '" ++ name ++ "'"
  | .invalidGrammar fault => "invalid parser configuration: " ++ fault.message
  | .invalidTarget fault => "invalid input target: " ++ fault.message
  | .duplicateTeam name => "team '" ++ name ++ "' is configured more than once"
  | .brokenProfile profile reason => "verb profile '" ++ profile ++ "' is unusable: " ++ reason

/-- Settings of the command language, if they are usable. -/
def Grammar.check (g : Grammar) : Except SetupError Unit :=
  match g.fault? with
  | some fault => .error (.invalidGrammar fault)
  | none => .ok ()

/-- A target, if it is usable. -/
def Target.check (t : Target) : Except SetupError Unit :=
  match t.fault? with
  | some fault => .error (.invalidTarget fault)
  | none => .ok ()

end CrowdPad
