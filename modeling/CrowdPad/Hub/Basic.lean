import CrowdPad.Clock
import CrowdPad.Config.Catalogue
import CrowdPad.Hub.Host
import CrowdPad.Team.Macros
import CrowdPad.Team.Message
import CrowdPad.Team.Pace

/-! The teams of one process. A team that cannot start is put on record and does not keep the others
from running. -/

namespace CrowdPad

/-- A running team with the place its notices go to. -/
structure Member where
  team : Team
  telemetry : Option Telemetry := none

def Member.name (m : Member) : String := m.team.name

/-- A team that could not start, or on which something failed. -/
structure FailedTeam where
  name : String
  error : String
deriving Repr, DecidableEq

def FailedTeam.toValue (failed : FailedTeam) : Value :=
  .record [("name", .text failed.name), ("error", .text failed.error)]

/-- The running teams, those that could not start, and the batches that are over. -/
structure Hub where
  members : List Member := []
  failed : List FailedTeam := []
  host : Host := {}
  /-- The batches that are over and not asked for yet, each with the name of its team. -/
  ended : List (String × Batch) := []

/-- Something done to a team. It may change files, and says what it tells others. -/
abbrev TeamAction (α : Type) := Files → Time → Team → Files × Team × List Notice × α

namespace TeamAction

/-- What may fail, and then leaves the team as it is. -/
def ofExcept {α : Type}
    (action : Files → Time → Team → Files × Except TeamError (Team × List Notice × α)) :
    TeamAction (Except TeamError α) :=
  fun fs now t =>
    match action fs now t with
    | (fs, .ok (t, notices, a)) => (fs, t, notices, .ok a)
    | (fs, .error error) => (fs, t, [], .error error)

/-- Takes a message that arrived so long after now. -/
def message (author text : String) (shift : Time) : TeamAction MessageOutcome :=
  fun fs now t => (fs, t.handleMessage now author text (now + shift))

def cancelAll : TeamAction Nat := fun fs _ t => (fs, t.cancelAll)

/-- Cancels one batch, and says whether it was active. -/
def cancelBatch (batch : Nat) : TeamAction Bool :=
  fun fs _ t => (fs, t.withScheduler (t.scheduler.cancel batch), [], t.scheduler.isActive batch)

def injectRandom : TeamAction (Option Nat) := fun fs now t => (fs, t.injectRandom now)

def setRandom (on : Bool) : TeamAction Unit := fun fs _ t => (fs, t.setRandom on, [], ())

def reset : TeamAction (Except TeamError Unit) :=
  ofExcept fun fs now t => (fs, (t.reset fs now).map fun (t, notices) => (t, notices, ()))

def addMacro (name body : String) : TeamAction (Except TeamError Unit) :=
  ofExcept fun fs _ t =>
    let (fs, result) := Team.addMacro fs t name body
    (fs, result.map fun (t, notices) => (t, notices, ()))

def changeMacro (name body : String) : TeamAction (Except TeamError Unit) :=
  ofExcept fun fs _ t =>
    let (fs, result) := Team.changeMacro fs t name body
    (fs, result.map fun (t, notices) => (t, notices, ()))

def removeMacro (name : String) : TeamAction (Except TeamError Unit) :=
  ofExcept fun fs _ t =>
    let (fs, result) := Team.removeMacro fs t name
    (fs, result.map fun (t, notices) => (t, notices, ()))

/-- Loads the macros again. -/
def reloadMacros : TeamAction (Except TeamError Nat) :=
  ofExcept fun fs now t => (fs, Team.reloadMacros fs now t)

/-- Replaces the macros by stored ones. -/
def restore (stored : StoredMacros) : TeamAction (List MacroError) :=
  fun fs now t =>
    let (fs, t, errors) := Team.restore fs now t stored
    (fs, t, [], errors)

end TeamAction

namespace Hub

def names (hub : Hub) : List String := hub.members.map Member.name

def team? (hub : Hub) (name : String) : Option Team :=
  (hub.members.find? fun m => m.name == name).map (·.team)

/-- Does something to a team of the process. -/
def perform {α : Type} (host : Host) (m : Member) (action : TeamAction α) : Host × Member × α :=
  let (files, team, notices, a) := action host.files host.now m.team
  ({ host with files }.notifyAll m.telemetry notices, { m with team }, a)

/-- Does something to the running team of a name. -/
def act? {α : Type} (hub : Hub) (name : String) (action : TeamAction α) : Option (Hub × α) :=
  match hub.members.find? fun m => m.name == name with
  | none => none
  | some m =>
    let (host, m, a) := perform hub.host m action
    some ({ hub with
      host, members := hub.members.map fun other => if other.name = name then m else other }, a)

/-- Adds a running team under a new name. -/
def insert (hub : Hub) (m : Member) : Except SetupError Hub :=
  if hub.names.contains m.name then .error (.duplicateTeam m.name)
  else .ok { hub with members := hub.members ++ [m] }

/-- Puts a team on record that could not start. -/
def recordFailure (hub : Hub) (name error : String) : Hub :=
  { hub with failed := hub.failed ++ [{ name, error }] }

/-! ### Starting -/

def startMember (host : Host) (seed : Nat) (config : TeamConfig) (verbs : VerbTable)
    (telemetry : Option Telemetry) : Except TeamError (Host × Member) := do
  let (team, notices) ← Team.start host.files host.now seed config verbs
  return (host.notifyAll telemetry notices, { team, telemetry })

/-- Where the log of a declared team is. -/
def logPath (folder name : String) : String := Path.join folder ("team_" ++ name ++ ".log")

/-- The log of a declared team. -/
def openLog (host : Host) (config : TelemetryConfig) (name : String) :
    Host × Except TeamError (Option Log) :=
  match config.logFolder with
  | none => (host, .ok none)
  | some folder =>
    match Log.tryOpen host.files (logPath folder name) config.minLevel with
    | (files, .ok log) => ({ host with files }, .ok (some log))
    | (files, .error fault) => ({ host with files }, .error (.log fault))

/-- Starts a declared team. Its log is there even if the team then cannot start. -/
def startEntry (publishes : Bool) (config : ProgramConfig) (host : Host) (seed : Nat)
    (verbs : VerbTable) (entry : TeamEntry) : Host × Except TeamError Member :=
  match openLog host config.telemetry entry.name with
  | (host, .error error) => (host, .error error)
  | (host, .ok log) =>
    let telemetry : Telemetry := { component := "team:" ++ entry.name, log, publishes }
    match startMember host seed (config.teamConfig entry) verbs (some telemetry) with
    | .error error => (host, .error error)
    | .ok (host, m) => (host, .ok m)

/-- Why a declared team does not run. -/
inductive EntryFault where
  | setup (error : SetupError)
  | start (error : TeamError)
deriving Repr, DecidableEq

def EntryFault.message : EntryFault → String
  | .setup error => error.message
  | .start error => error.message

/-- Tries to start a declared team. What random verbs it plays depends on the seed and on the number
of teams before it. -/
def tryEntry (publishes : Bool) (config : ProgramConfig) (seed : Nat) (hub : Hub)
    (catalogue : Catalogue) (entry : TeamEntry) : Host × Catalogue × Except EntryFault Member :=
  if hub.names.contains entry.name then
    (hub.host, catalogue, .error (.setup (.duplicateTeam entry.name)))
  else
    match catalogue.resolve entry.profile with
    | (catalogue, .error error) => (hub.host, catalogue, .error (.setup error))
    | (catalogue, .ok verbs) =>
      match startEntry publishes config hub.host (seed + hub.members.length) verbs entry with
      | (host, .error error) => (host, catalogue, .error (.start error))
      | (host, .ok m) => (host, catalogue, .ok m)

/-- Starts a declared team in a hub, or puts it on record. -/
def addEntry (publishes : Bool) (config : ProgramConfig) (seed : Nat) (hub : Hub)
    (catalogue : Catalogue) (entry : TeamEntry) : Hub × Catalogue :=
  match tryEntry publishes config seed hub catalogue entry with
  | (host, catalogue, .ok m) => ({ hub with host, members := hub.members ++ [m] }, catalogue)
  | (host, catalogue, .error fault) =>
    ({ hub with host }.recordFailure entry.name fault.message, catalogue)

/-- Starts declared teams in order. -/
def addEntries (publishes : Bool) (config : ProgramConfig) (seed : Nat) (hub : Hub)
    (catalogue : Catalogue) : List TeamEntry → Hub
  | [] => hub
  | entry :: rest =>
    let (hub, catalogue) := addEntry publishes config seed hub catalogue entry
    addEntries publishes config seed hub catalogue rest

/-- Starts all declared teams, with events going where the host says. -/
def ofConfig (config : ProgramConfig) (publishes : Bool) (host : Host) (seed : Nat) : Hub :=
  addEntries publishes config seed { host } (.ofSources host.files config.profiles) config.teams

/-- Starts all declared teams, with events going to the file that the configuration names. -/
def ofProgram (config : ProgramConfig) (host : Host) (seed : Nat) : Except FileFault Hub :=
  match config.telemetry.eventLog with
  | none => .ok (ofConfig config false host seed)
  | some path => do
    let (files, sink) ← EventSink.openFile host.files path
    return ofConfig config true { host with files, sink } seed

/-! ### Time -/

/-- Everything that is due for a team at the time of the host. -/
def settleMember (host : Host) (m : Member) : Host × Member × List (String × Batch) :=
  let (team, device, notices, ended) := m.team.settle host.now host.network host.device
  ({ host with device }.notifyAll m.telemetry notices, { m with team },
    ended.map fun b => (m.name, b))

/-- Everything that is due for some teams at the time of the host. -/
def settleMembers (host : Host) : List Member → Host × List Member × List (String × Batch)
  | [] => (host, [], [])
  | m :: rest =>
    let (host, m, ended) := settleMember host m
    let (host, members, more) := settleMembers host rest
    (host, m :: members, ended ++ more)

/-- Everything that is due at a moment. -/
def settle (now : Time) (hub : Hub) : Hub :=
  let (host, members, ended) := settleMembers { hub.host with now } hub.members
  { hub with host := host.flush, members, ended := hub.ended ++ ended }

/-- When something happens next by itself. -/
def nextDue? (hub : Hub) : Option Time := (hub.members.filterMap fun m => m.team.nextDue?).min?

/-- Lets so many milliseconds pass. -/
def advance (hub : Hub) (ms : Nat) : Hub :=
  Clock.advance settle nextDue? (hub.host.now + ms) hub.host.now hub

/-- Changes the team of a name, and passes its notices on. -/
def change (hub : Hub) (name : String) (f : Team → Team × List Notice) : Hub :=
  match hub.act? name fun fs _ t => let (t, notices) := f t; (fs, t, notices, ()) with
  | some (hub, _) => hub
  | none => hub

/-- Stops a team: its pending presses are given up, and keys that are down get so many milliseconds
to come up. Edges due as the time runs out are still handed over, but not worked off. -/
def shutdownTeam (graceMs : Nat) (hub : Hub) (name : String) : Hub :=
  let hub := hub.change name fun t => (t.beginStop, [])
  let isIdle (hub : Hub) : Bool := (hub.team? name).all Team.isIdle
  let now := hub.host.now
  let (now, hub) := Clock.wait settle nextDue? isIdle (now + graceMs) now hub
  let hub := { hub with host := { hub.host with now } }
  let hub := hub.change name fun t => t.fire now
  hub.change name Team.endStop

/-- Stops all teams, one after the other. -/
def shutdown (hub : Hub) (graceMs : Nat) : Hub :=
  let hub := hub.names.foldl (shutdownTeam graceMs) hub
  settle hub.host.now hub

/-! ### Messages and diagnostics -/

/-- Hands a message to the team of a name. -/
def route (hub : Hub) (name author text : String) (shift : Time) :
    Except TeamError (Hub × MessageOutcome) :=
  match hub.act? name (.message author text shift) with
  | some result => .ok result
  | none => .error (.unknownTeam name)

def diagnostics (hub : Hub) : List Value :=
  hub.members.map fun m => m.team.diagnostics hub.host.epochMs

end Hub

end CrowdPad
