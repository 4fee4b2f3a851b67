import CrowdPad.Hub.Hook

/-! Control lines, which an operator types while teams run. The words of a line are parted by white
space, except those of a macro command, which are parted by single blanks so that a body keeps its
spacing. -/

namespace CrowdPad

/-- What is printed, line by line. -/
structure Printed where
  out : List String := []
  /-- What goes to the error output. -/
  err : List String := []
deriving Repr, DecidableEq, Inhabited

/-- What a control line asks for. -/
inductive Control where
  | hook (hook : Hook) (team : Option String)
  | stats (team : Option String)
  | macros (action team name body : String)
  | snapshot (team : String) (path : Option String)
  | restore (team path : String)
  | help
  | quit
deriving Repr, DecidableEq

/-- Why a control line is refused. -/
inductive ControlFault where
  | unknownControl (name : String)
  | usage (form : String)
  | unknownTeam (name : String)
  | unknownMacroAction (name : String)
  | team (error : TeamError)
  | write (path : String) (fault : FileFault)
  | read (path : String) (fault : FileFault)
  | notASnapshot
deriving Repr, DecidableEq

def ControlFault.message : ControlFault → String
  | .unknownControl name => "unknown control '" ++ name ++ "', try !help"
  | .usage form => "usage: " ++ form
  | .unknownTeam name => "unknown team " ++ name
  | .unknownMacroAction name => "unknown macro action '" ++ name ++ "'"
  | .team error => error.message
  | .write path fault => "writing " ++ path ++ ": " ++ fault.message
  | .read path fault => "reading " ++ path ++ ": " ++ fault.message
  | .notASnapshot => "not a snapshot"

namespace Control

/-- The hooks by the names that they have in control lines. -/
def hooks : List (String × Hook) :=
  [("cancel", .cancelAll), ("random", .injectRandom), ("reset", .reset),
    ("random-on", .randomInputs true), ("random-off", .randomInputs false)]

/-- The parts of a macro command: up to three words, and the body behind them. -/
def macroParts (line : String) : List String :=
  let cs := line.toList
  let cs := (Text.dropStart? "macro".toList cs).getD cs
  (Text.splitParts ' ' 3 (Text.trim cs)).map String.ofList

def ofMacroLine (line : String) : Except ControlFault Control :=
  match macroParts line with
  | action :: team :: rest => .ok (.macros action team (rest.headD "") ((rest.drop 1).headD ""))
  | _ => .error (.usage "!macro <add|change|remove|list|reload> <team> [name] [body]")

def ofLine (line : String) : Except ControlFault Control :=
  let words := (Text.words line).map String.ofList
  let name := words.headD ""
  let rest := words.drop 1
  match hooks.lookup name with
  | some meant => .ok (.hook meant rest.head?)
  | none =>
    match name with
    | "stats" => .ok (.stats rest.head?)
    | "macro" => ofMacroLine line
    | "snapshot" =>
      match rest with
      | team :: rest => .ok (.snapshot team rest.head?)
      | [] => .error (.usage "!snapshot <team> [file]")
    | "restore" =>
      match rest with
      | team :: path :: _ => .ok (.restore team path)
      | _ => .error (.usage "!restore <team> <file>")
    | "help" => .ok .help
    | "quit" => .ok .quit
    | "exit" => .ok .quit
    | _ => .error (.unknownControl name)

def helpLines : List String :=
  ["Controls (team optional unless noted):",
    "  !cancel [team]        cancel pending presses",
    "  !random [team]        inject one random action",
    "  !random-on|off [team] toggle the random input loop",
    "  !reset [team]         cancel, clear state, reload macros",
    "  !stats [team]         print diagnostics",
    "  !macro <add|change|remove|list|reload> <team> [name] [body]",
    "  !snapshot <team> [file] / !restore <team> <file>",
    "  !quit"]

end Control

/-- What comes of a control line. -/
structure ControlResult where
  hub : Hub
  printed : Printed := {}
  /-- Whether the program goes on, or why the line is refused. -/
  outcome : Except ControlFault Bool := .ok true

namespace Hub

/-- A control line that is refused. -/
def refuse (hub : Hub) (fault : ControlFault) : ControlResult := { hub, outcome := .error fault }

def controlTeam {α : Type} (hub : Hub) (name : String) (action : TeamAction α)
    (finish : Hub → α → ControlResult) : ControlResult :=
  match hub.act? name action with
  | some (hub, a) => finish hub a
  | none => hub.refuse (.unknownTeam name)

/-- Does something to a team that may fail. -/
def controlTeamOr {α : Type} (hub : Hub) (name : String) (action : TeamAction (Except TeamError α))
    (out : α → List String) : ControlResult :=
  hub.controlTeam name action fun hub result =>
    match result with
    | .ok a => { hub, printed := { out := out a } }
    | .error error => hub.refuse (.team error)

/-- Applies a hook and prints on which teams it failed. -/
def controlHook (hub : Hub) (hook : Hook) (team : Option String) : ControlResult :=
  match hub.control team hook with
  | .ok (hub, report) =>
    let line (failed : FailedTeam) : String := failed.name ++ ": " ++ failed.error
    { hub, printed := { err := report.failed.map line } }
  | .error error => hub.refuse (.team error)

/-- Prints diagnostics of one team, or of all. -/
def controlStats (hub : Hub) (team : Option String) : ControlResult :=
  match team with
  | none => { hub, printed := { out := [Json.pretty (.list hub.diagnostics)] } }
  | some name =>
    match hub.team? name with
    | none => hub.refuse (.unknownTeam name)
    | some t =>
      { hub, printed := { out := [Json.pretty (.list [t.diagnostics hub.host.epochMs])] } }

/-- Does something to the macros of a team. -/
def controlMacros (hub : Hub) (action team name body : String) : ControlResult :=
  match hub.team? team with
  | none => hub.refuse (.unknownTeam team)
  | some t =>
    match action with
    | "add" => hub.controlTeamOr team (.addMacro name body) fun _ => []
    | "change" => hub.controlTeamOr team (.changeMacro name body) fun _ => []
    | "remove" => hub.controlTeamOr team (.removeMacro name) fun _ => []
    | "reload" =>
      hub.controlTeamOr team .reloadMacros fun loaded =>
        [team ++ ": " ++ toString loaded ++ " macros loaded"]
    | "list" => { hub, printed := { out := [team ++ ": " ++ ", ".intercalate t.macros.names] } }
    | _ => hub.refuse (.unknownMacroAction action)

/-- Prints the macros of a team, or writes them to a file. -/
def controlSnapshot (hub : Hub) (team : String) (path : Option String) : ControlResult :=
  match hub.team? team with
  | none => hub.refuse (.unknownTeam team)
  | some t =>
    let snapshot := Json.pretty t.snapshotValue
    match path with
    | none => { hub, printed := { out := [snapshot] } }
    | some path =>
      match hub.host.files.write path snapshot with
      | .ok files => { hub := { hub with host := { hub.host with files } } }
      | .error fault => hub.refuse (.write path fault)

/-- Replaces the macros of a team by those of a file, and prints which are refused. -/
def controlRestore (hub : Hub) (team path : String) : ControlResult :=
  if hub.names.contains team then
    match hub.host.files.read path with
    | .error fault => hub.refuse (.read path fault)
    | .ok content =>
      match (Json.read content).bind Value.toSnapshot? with
      | none => hub.refuse .notASnapshot
      | some stored =>
        hub.controlTeam team (.restore stored) fun hub errors =>
          { hub, printed := { err := errors.map fun error => team ++ ": " ++ error.message } }
  else hub.refuse (.unknownTeam team)

def runControl (hub : Hub) : Control → ControlResult
  | .hook hook team => hub.controlHook hook team
  | .stats team => hub.controlStats team
  | .macros action team name body => hub.controlMacros action team name body
  | .snapshot team path => hub.controlSnapshot team path
  | .restore team path => hub.controlRestore team path
  | .help => { hub, printed := { out := Control.helpLines } }
  | .quit => { hub, outcome := .ok false }

def controlLine (hub : Hub) (line : String) : ControlResult :=
  match Control.ofLine line with
  | .ok control => hub.runControl control
  | .error fault => hub.refuse fault

end Hub

end CrowdPad
