import CrowdPad.Console.Control

/-! A session with running teams. Each line is empty, a control line behind an exclamation mark, or
a chat message: team, author and text, parted by tabs. -/

namespace CrowdPad

namespace Printed

/-- What is printed first and what is printed then. -/
def append (first next : Printed) : Printed :=
  { out := first.out ++ next.out, err := first.err ++ next.err }

end Printed

/-- What comes of a line. -/
structure LineResult where
  hub : Hub
  printed : Printed := {}
  /-- Whether the session goes on. -/
  goesOn : Bool := true

namespace Hub

/-- What is printed about a message. -/
def announce (team : String) : MessageOutcome → List String
  | .notACommand => []
  | .duplicate => [team ++ ": duplicate ignored"]
  | .nothingToRun dropped => [team ++ ": nothing to run (" ++ toString dropped ++ " dropped)"]
  | .scheduled batch requests dropped =>
    [team ++ ": batch-" ++ toString batch ++ " with " ++ toString requests ++ " actions (" ++
      toString dropped ++ " dropped)"]

def sessionControl (hub : Hub) (line : String) : LineResult :=
  let result := hub.controlLine line
  match result.outcome with
  | .ok goesOn => { hub := result.hub, printed := result.printed, goesOn }
  | .error fault =>
    { hub := result.hub, printed := result.printed.append { err := [fault.message] } }

/-- Hands the message of a line to its team. -/
def sessionMessage (hub : Hub) (line : List Char) : LineResult :=
  match (Text.splitParts '\t' 2 line).map String.ofList with
  | [team, author, text] =>
    match hub.route team author text 0 with
    | .ok (hub, outcome) => { hub, printed := { out := announce team outcome } }
    | .error error => { hub, printed := { err := [error.message] } }
  | _ => { hub, printed := { err := ["expected 'team<TAB>author<TAB>text'"] } }

/-- Takes a line. White space at its end does not count. -/
def sessionLine (hub : Hub) (line : String) : LineResult :=
  match Text.trimEnd line.toList with
  | [] => { hub }
  | '!' :: control => hub.sessionControl (String.ofList control)
  | message => hub.sessionMessage message

/-- Takes lines that arrive at once, until one ends the session. -/
def sessionLines (hub : Hub) : List String → LineResult
  | [] => { hub }
  | line :: rest =>
    let result := (hub.advance 0).sessionLine line
    if result.goesOn then
      let later := sessionLines result.hub rest
      { later with printed := result.printed.append later.printed }
    else result

end Hub

end CrowdPad
