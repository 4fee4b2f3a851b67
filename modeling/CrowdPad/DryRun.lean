import CrowdPad.Command.Message
import CrowdPad.Data.Json.Printer
import CrowdPad.Profile.Document
import CrowdPad.Request

/-! Dry runs: what a message asks for among the verbs of a profile, without a team to carry it out.
-/

namespace CrowdPad

/-- What is found in a message. -/
structure DryRun where
  requests : List Request := []
  /-- Why commands are dropped, those with malformed timing first. -/
  errors : List String := []
  unknown : List String := []
deriving Repr, DecidableEq

namespace DryRun

/-- Adds what a command asks for, in front. -/
def consCommand (command : Command Verb) (run : DryRun) : DryRun :=
  match command.timing.request command.meaning with
  | .ok request => { run with requests := request :: run.requests }
  | .error error => { run with errors := (command.word ++ ": " ++ error.message) :: run.errors }

/-- Reads a message; `none` if it is no command. -/
def ofText? (g : Grammar) (verbs : VerbTable) (text : String) : Option DryRun :=
  (g.parse? verbs.resolve? text).map fun message =>
    let commands := message.commands.foldr consCommand {}
    { commands with
      errors := message.malformed.map Malformed.message ++ commands.errors
      unknown := message.unknown }

def toValue (profile : String) (run : DryRun) : Value :=
  .record [("command", .bool true), ("profile", .text profile),
    ("requests", .list (run.requests.map Request.toValue)),
    ("errors", .list (run.errors.map .text)), ("unknown", .list (run.unknown.map .text))]

/-- The report on a message as text, with names in order; one line says that it is no command. -/
def report (g : Grammar) (verbs : VerbTable) (text : String) : String :=
  match ofText? g verbs text with
  | none => Json.compact (.record [("command", .bool false)])
  | some run => Json.pretty (run.toValue verbs.profile).sorted

end DryRun

end CrowdPad
