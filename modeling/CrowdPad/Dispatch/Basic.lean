import CrowdPad.Device
import CrowdPad.Wire.Message

/-! What the workers that carry out edges have in common: their counters, and the record of an edge
that went wrong. -/

namespace CrowdPad

/-- The counters of a worker. -/
structure DispatchStats where
  /-- Edges taken and not worked off. -/
  queued : Nat := 0
  /-- Edges applied or written. -/
  delivered : Nat := 0
  /-- Attempts that failed. -/
  failed : Nat := 0
  /-- Presses dropped for their age. -/
  staleDropped : Nat := 0
deriving Repr, DecidableEq, Inhabited

namespace DispatchStats

def toValue (s : DispatchStats) : Value :=
  .record [("queued", .nat s.queued), ("delivered", .nat s.delivered), ("failed", .nat s.failed),
    ("stale_dropped", .nat s.staleDropped)]

end DispatchStats

/-- Why an edge, or an attempt at it, failed. -/
inductive DispatchError where
  | workerStopped (target : String)
  | device (reason : String)
  | connect (address reason : String)
  | timeout (address : String)
  | wire (error : WireError)
  | stale (key : String) (lateMs : Nat)
deriving Repr, DecidableEq

def DispatchError.message : DispatchError → String
  | .workerStopped target => "dispatch worker for " ++ target ++ " has stopped"
  | .device reason => "device error: " ++ reason
  | .connect address reason => "connect to " ++ address ++ " failed: " ++ reason
  | .timeout address => "timed out talking to " ++ address
  | .wire error => error.message
  | .stale key lateMs =>
    "press of " ++ key ++ " dropped " ++ toString lateMs ++ " ms after its fire time"

/-- The kinds of failure that diagnostics tell apart. -/
inductive FailureKind where
  | workerStopped
  | device
  | connect
  | write
  | stale
deriving Repr, DecidableEq

def FailureKind.name : FailureKind → String
  | .workerStopped => "worker_stopped"
  | .device => "backend"
  | .connect => "connect"
  | .write => "write"
  | .stale => "stale"

/-- The kind of an error. A timeout counts as a failure to connect. -/
def DispatchError.kind : DispatchError → FailureKind
  | .workerStopped _ => .workerStopped
  | .device _ => .device
  | .connect _ _ => .connect
  | .timeout _ => .connect
  | .wire _ => .write
  | .stale _ _ => .stale

/-- The record of an edge that went wrong. -/
structure DispatchFailure where
  time : Time
  kind : FailureKind
  batch : Nat
  verb : String
  key : String
  transition : Transition
  detail : String
deriving Repr, DecidableEq

/-- Records what happened to an edge. -/
def DispatchFailure.of (now : Time) (e : Edge) (error : DispatchError) : DispatchFailure :=
  { time := now, kind := error.kind, batch := e.batch, verb := e.verb, key := e.key,
    transition := e.transition, detail := error.message }

end CrowdPad
