import CrowdPad.Playback
import CrowdPad.Ring
import CrowdPad.Team.Config
import CrowdPad.Telemetry.Log

/-! A running team: its macros, its edges under way, and the record of what happened. Operations on
a team return the notices that go to its log and to those who follow its events. -/

namespace CrowdPad

/-- The counters of a team; they never go down. -/
structure TeamCounters where
  messages : Nat := 0
  duplicates : Nat := 0
  /-- Batches scheduled for messages. -/
  batches : Nat := 0
  /-- Requests of these batches. -/
  requests : Nat := 0
  dropped : Nat := 0
  randomInjections : Nat := 0
  cancellations : Nat := 0
deriving Repr, DecidableEq, Inhabited

/-- A command, or a stored macro, that was not taken. -/
structure Dropped where
  time : Time
  /-- Who wrote the message; empty for stored macros. -/
  author : String
  reason : String
deriving Repr, DecidableEq, Inhabited

/-- Something that a log or a follower of events is told. -/
inductive Notice where
  | log (level : Level) (message : String) (metadata : Value)
  | event (kind : String) (payload : Value)
  /-- An edge that went wrong; it is both logged and published. -/
  | failed (failure : DispatchFailure)

/-- What identifies a message for spam protection: its author, and its text without the white space
around it. -/
abbrev MessageKey := String × String

/-- A running team. -/
structure Team where
  config : TeamConfig
  verbs : VerbTable
  macros : MacroTable := {}
  playback : Playback
  counters : TeamCounters := {}
  dropped : Ring Dropped
  failures : Ring DispatchFailure
  /-- The batch of each message that may still run. -/
  recent : List (MessageKey × Nat) := []
  /-- Whether random verbs are played when their time comes. -/
  randomOn : Bool := false
  /-- When the time for a random verb comes next. -/
  randomAt : Option Time := none
  /-- What the next random choice depends on. -/
  seed : Nat := 0

namespace Team

def name (t : Team) : String := t.config.name

def scheduler (t : Team) : Scheduler := t.playback.scheduler

def withScheduler (t : Team) (scheduler : Scheduler) : Team :=
  { t with playback := { t.playback with scheduler } }

/-- Records what was dropped. -/
def drop (now : Time) (author : String) (reasons : List String) (t : Team) : Team :=
  { t with
    counters := { t.counters with dropped := t.counters.dropped + reasons.length }
    dropped := t.dropped.pushAll (reasons.map fun reason => { time := now, author, reason }) }

/-- Records edges that went wrong. -/
def recordFailures (failures : List DispatchFailure) (t : Team) : Team × List Notice :=
  ({ t with failures := t.failures.pushAll failures }, failures.map .failed)

/-- The macros of a file; those that are refused are recorded as dropped. -/
def withMacroFile (now : Time) (file : MacroFile) (t : Team) : Team :=
  let (macros, errors) := MacroTable.ofSteps t.verbs t.config.macros.limits file.macros
  { t.drop now "" (errors.map MacroError.message) with macros }

/-- Reads the macro file of a team, if it has one. -/
def readMacroFile (fs : Files) (config : TeamConfig) : Except TeamError (Option MacroFile) :=
  match config.macros.file with
  | none => .ok none
  | some path =>
    match MacroFile.load fs path with
    | .ok file => .ok (some file)
    | .error fault => .error (.storage fault)

/-- Starts a team with the macros of its file. The time for a random verb never comes where the
interval between two of them is zero. -/
def start (fs : Files) (now : Time) (seed : Nat) (config : TeamConfig) (verbs : VerbTable) :
    Except TeamError (Team × List Notice) := do
  config.target.check.mapError .setup
  config.grammar.check.mapError .setup
  let file ← readMacroFile fs config
  let team : Team := {
    config, verbs, seed
    playback := { worker := .ofTarget config.target config.remote }
    dropped := .ofCapacity config.diagnosticsCapacity
    failures := .ofCapacity config.diagnosticsCapacity
    randomOn := config.randomMs.isSome
    randomAt := (config.randomMs.filter fun ms => 0 < ms).map fun ms => now + ms }
  let team := team.withMacroFile now (file.getD {})
  return (team, [.log .info "team.started" <| .record [("profile", .text verbs.profile),
    ("target", .text config.target.describe), ("macros", .nat team.macros.entries.length)]])

end Team

end CrowdPad
