import CrowdPad.CommandLine.Arguments
import CrowdPad.Console.Session
import CrowdPad.DryRun
import CrowdPad.Profile.Listing

/-! The program as a whole: what it prints and how it ends, given its arguments, its files and the
lines of its input. -/

namespace CrowdPad

/-- Why the program gives up. -/
inductive ProgramError where
  | config (fault : ConfigFault)
  | profile (fault : ProfileFault)
  | setup (error : SetupError)
  /-- The file for events cannot be opened. -/
  | start (fault : FileFault)
  | noTeam
  | bind (address : String)
deriving Repr, DecidableEq

namespace ProgramError

/-- What was being done. -/
def summary : ProgramError → String
  | .config fault => fault.summary
  | .profile fault => fault.summary
  | .setup error => error.message
  | .start _ => "failed to start teams"
  | .noTeam => "no team could be started"
  | .bind address => "binding remote input server on " ++ address

def cause? : ProgramError → Option String
  | .config fault => some fault.cause
  | .profile fault => some fault.cause
  | .start fault => some fault.message
  | .bind _ => some "network unreachable"
  | _ => none

def message (error : ProgramError) : String :=
  match error.cause? with
  | some cause => error.summary ++ ": " ++ cause
  | none => error.summary

/-- What is printed when the program gives up. -/
def lines (error : ProgramError) : List String :=
  ("Error: " ++ error.summary) ::
    match error.cause? with
    | some cause => ["", "Caused by:", "    " ++ cause]
    | none => []

end ProgramError

/-- How the program ends. -/
structure Outcome where
  code : Nat := 0
  printed : Printed := {}
deriving Repr, DecidableEq, Inhabited

namespace Outcome

/-- The end of a program that gives up. -/
def ofError (error : ProgramError) : Outcome := { code := 1, printed := { err := error.lines } }

/-- The end of a program that was called in the wrong way. -/
def misused : Outcome := { code := 2 }

end Outcome

namespace Program

open CommandLine

/-- The table that a message is read with. -/
def verbsFor (files : Files) (profile : String) (profileFile : Option String) :
    Except ProgramError VerbTable :=
  match profileFile with
  | none => (Profile.builtin profile).mapError .setup
  | some path => do
    let document ← (Profile.Document.load files path).mapError ProgramError.profile
    document.toTable.mapError .setup

/-- Reads a message without a team. -/
def parse (files : Files) (profile : String) (profileFile : Option String) (marker text : String) :
    Except ProgramError String := do
  let verbs ← verbsFor files profile profileFile
  let g : Grammar := { marker }
  g.check.mapError .setup
  return DryRun.report g verbs text

def profiles : Except ProgramError (List String) := Profile.builtinListing.mapError .setup

def readyLine (hub : Hub) : String :=
  "chatwars ready with teams: " ++ ", ".intercalate hub.names ++
    ". Lines are 'team<TAB>author<TAB>text'; '!help' lists controls."

/-- Starts the teams of a configuration; what is printed of those that cannot start is printed even
if none can. -/
def start (host : Host) (seed : Nat) (config : String) : Printed × Except ProgramError Hub :=
  match ProgramConfig.load host.files config with
  | .error fault => ({}, .error (.config fault))
  | .ok config =>
    match Hub.ofProgram config host seed with
    | .error fault => ({}, .error (.start fault))
    | .ok hub =>
      let err := hub.failed.map fun failed =>
        "team " ++ failed.name ++ " disabled: " ++ failed.error
      if hub.members.isEmpty then ({ err }, .error .noTeam)
      else ({ out := [readyLine hub], err }, .ok hub)

/-- Runs the teams of a configuration on lines that arrive at once, and gives keys that are down at
the end some milliseconds. -/
def run (host : Host) (seed : Nat) (config : String) (graceMs : Nat) (input : List String) :
    Hub × Outcome :=
  match start host seed config with
  | (printed, .error error) =>
    ({ host }, { code := 1, printed := printed.append { err := error.lines } })
  | (printed, .ok hub) =>
    let result := hub.sessionLines input
    (result.hub.shutdown graceMs, { printed := printed.append result.printed })

/-- The end of a program that prints some lines, or gives up. -/
def print (lines : Except ProgramError (List String)) : Outcome :=
  match lines with
  | .ok out => { printed := { out } }
  | .error error => .ofError error

/-- Carries out a task that needs no input. -/
def answer (files : Files) : Task → Outcome
  | .run _ _ => {}
  | .parse profile profileFile marker text =>
    print ((parse files profile profileFile marker text).map fun report => [report])
  | .serve address => .ofError (.bind address)
  | .profiles => print profiles
  | .inform lines => { printed := { out := lines } }

/-- The lines of a text; the last one need not be ended. -/
def linesOf (input : String) : List String :=
  let lines := input.splitOn "\n"
  if lines.getLast? = some "" then lines.dropLast else lines

/-- Carries out the task that some arguments ask for, with an input that is there from the start. -/
def main (host : Host) (seed : Nat) (arguments : List String) (input : String) : Outcome :=
  match task? arguments with
  | none => .misused
  | some (.run config graceSecs) => (run host seed config (graceSecs * 1000) (linesOf input)).2
  | some task => answer host.files task

end Program

end CrowdPad
