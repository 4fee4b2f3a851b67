import CrowdPad.Dispatch.Backoff
import CrowdPad.Target
import CrowdPad.Wire.Frame

/-! The worker of a team whose inputs go to an input server. It works on one edge at a time, by single
moves, and tries until the edge is written. A press that is too old when an attempt would begin is
dropped instead, and its release with it; a release is never too old. What the network does is given
to each move from outside. -/

namespace CrowdPad

/-- One half of an attempt: how long it takes, and what is wrong with it, if anything. -/
structure Leg where
  ms : Nat := 0
  fault : Option String := none
deriving Repr, DecidableEq, Inhabited

/-- What the network does with an attempt. -/
structure Attempt where
  /-- Whether the connection of earlier attempts turns out to be gone. -/
  lost : Bool := false
  /-- The making of a connection, where there is none. -/
  connecting : Leg := {}
  writing : Leg := {}
deriving Repr, DecidableEq, Inhabited

/-- An attempt at a server that does not listen. -/
def Attempt.refused : Attempt := { connecting := { fault := some "Connection refused" } }

/-- A worker, the edges it has not begun with, and the one it is trying to write. -/
structure RemoteWorker where
  target : Target
  settings : RemoteSettings := {}
  queue : List Edge := []
  current : Option Edge := none
  /-- When the next attempt at the current edge may begin. -/
  wakeAt : Option Time := none
  connected : Bool := false
  /-- The sequence number of the next message. -/
  seq : Nat := 0
  /-- The next wait, in nanoseconds. -/
  backoff : Nat := settings.firstBackoff
  /-- The pairs whose press was dropped. -/
  dropped : List Nat := []
  stopped : Bool := false
  stats : DispatchStats := {}
deriving Repr, DecidableEq, Inhabited

/-- What comes of a move. -/
structure MoveResult where
  worker : RemoteWorker
  /-- When it is over. -/
  finish : Time
  /-- The message that was written, with the time at which its writing began. -/
  written : Option (Time × WireMessage) := none
  failure : Option DispatchFailure := none

namespace RemoteWorker

def address (w : RemoteWorker) : String := w.target.address?.getD ""

def handOver (w : RemoteWorker) (e : Edge) : Except DispatchError RemoteWorker :=
  if w.stopped then .error (.workerStopped w.target.describe)
  else
    .ok { w with queue := w.queue ++ [e], stats := { w.stats with queued := w.stats.queued + 1 } }

/-- Stops the worker. Edges not written yet are lost, and those still queued stay counted so. -/
def stop (w : RemoteWorker) : RemoteWorker :=
  { w with queue := [], current := none, wakeAt := none, stopped := true }

/-- How late an edge is. -/
def lateMs (now : Time) (e : Edge) : Nat := (now - e.fireAt).toNat

/-- Whether an edge is too old for an attempt. -/
def isStale (w : RemoteWorker) (now : Time) (e : Edge) : Bool :=
  e.isPress && w.settings.stalenessMs < lateMs now e

/-- Takes the first edge off the queue. The release of a press that was dropped is passed over. -/
def take (w : RemoteWorker) (e : Edge) (rest : List Edge) : RemoteWorker :=
  let w := { w with queue := rest, stats := { w.stats with queued := w.stats.queued - 1 } }
  if !e.isPress && w.dropped.contains e.pair then { w with dropped := w.dropped.erase e.pair }
  else { w with current := some e }

/-- Drops a press for its age. -/
def dropStale (w : RemoteWorker) (now : Time) (e : Edge) : MoveResult :=
  { worker :=
      { w with
        current := none
        wakeAt := none
        dropped := if w.dropped.contains e.pair then w.dropped else e.pair :: w.dropped
        stats := { w.stats with staleDropped := w.stats.staleDropped + 1 } }
    finish := now
    failure := some (.of now e (.stale e.key (lateMs now e))) }

/-- The message of an edge. -/
def messageOf (w : RemoteWorker) (e : Edge) : WireMessage :=
  { player := w.target.player.toUInt8, key := e.key, transition := e.transition
    seq := w.seq.toUInt64 }

/-- When a wait that begins at a time is over: at the next whole millisecond, and later in any case.
-/
def wakeTime (finish : Time) (nanos : Nat) : Time :=
  finish + max 1 ((nanos + Backoff.nanosPerMilli - 1) / Backoff.nanosPerMilli : Nat)

/-- The end of an attempt that failed. -/
def fail (w : RemoteWorker) (finish : Time) (e : Edge) (error : DispatchError) : MoveResult :=
  { worker :=
      { w with
        connected := false
        wakeAt := some (wakeTime finish w.backoff)
        backoff := w.settings.nextBackoff w.backoff
        stats := { w.stats with failed := w.stats.failed + 1 } }
    finish
    failure := some (.of finish e error) }

/-- Writes an edge over a connection that is there. -/
def write (w : RemoteWorker) (start : Time) (leg : Leg) (e : Edge) : MoveResult :=
  let message := w.messageOf e
  match message.frame with
  | .error error => w.fail start e (.wire error)
  | .ok _ =>
    if w.settings.ioTimeoutMs < leg.ms then
      w.fail (start + w.settings.ioTimeoutMs) e (.timeout w.address)
    else
      match leg.fault with
      | some reason => w.fail (start + leg.ms) e (.wire (.io reason))
      | none =>
        { worker :=
            { w with
              current := none
              wakeAt := none
              seq := w.seq + 1
              backoff := w.settings.firstBackoff
              stats := { w.stats with delivered := w.stats.delivered + 1 } }
          finish := start + leg.ms
          written := some (start, message) }

/-- Writes an edge over the connection, which is made first where there is none. -/
def send (w : RemoteWorker) (now : Time) (a : Attempt) (e : Edge) : MoveResult :=
  if w.connected then w.write now a.writing e
  else if w.settings.connectTimeoutMs < a.connecting.ms then
    w.fail (now + w.settings.connectTimeoutMs) e (.timeout w.address)
  else
    match a.connecting.fault with
    | some reason => w.fail (now + a.connecting.ms) e (.connect w.address reason)
    | none => { w with connected := true }.write (now + a.connecting.ms) a.writing e

/-- Tries to write an edge. -/
def attempt (w : RemoteWorker) (now : Time) (a : Attempt) (e : Edge) : MoveResult :=
  { w with connected := w.connected && !a.lost }.send now a e

/-- What the worker does next: it tries to write its edge, unless that has become too old, or it takes
one off the queue. -/
def move (w : RemoteWorker) (now : Time) (a : Attempt) : MoveResult :=
  match w.current with
  | some e => if w.isStale now e then w.dropStale now e else w.attempt now a e
  | none =>
    match w.queue with
    | [] => { worker := w, finish := now }
    | e :: rest => { worker := w.take e rest, finish := now }

/-- Whether the worker waits before its next attempt. -/
def isWaiting (w : RemoteWorker) (now : Time) : Bool :=
  match w.wakeAt with
  | some time => now < time
  | none => false

/-- The edges that are not worked off. -/
def pending (w : RemoteWorker) : List Edge := w.current.toList ++ w.queue

/-- Moves for as long as there is something to do that needs no waiting; the fuel bounds the number of
moves. What is written is returned in order. -/
def runMoves (now : Time) (a : Attempt) :
    Nat → RemoteWorker → RemoteWorker × List WireMessage × List DispatchFailure
  | 0, w => (w, [], [])
  | fuel + 1, w =>
    if w.isWaiting now || w.pending.isEmpty then (w, [], [])
    else
      let result := w.move now a
      let (w, written, failures) := runMoves now a fuel result.worker
      (w, (result.written.map (·.2)).toList ++ written, result.failure.toList ++ failures)

/-- Works on all edges that the worker has, while every attempt ends at once like the given one. An
edge takes two moves at most. -/
def run (now : Time) (a : Attempt) (w : RemoteWorker) :
    RemoteWorker × List WireMessage × List DispatchFailure :=
  runMoves now a (2 * w.pending.length) w

end RemoteWorker

end CrowdPad

namespace CrowdPad

def RemoteSettings.toValue (s : RemoteSettings) : Value :=
  .record [("connect_timeout_ms", .nat s.connectTimeoutMs), ("io_timeout_ms", .nat s.ioTimeoutMs),
    ("initial_backoff_ms", .nat s.initialBackoffMs), ("backoff_factor", .real s.backoffFactor),
    ("max_backoff_ms", .nat s.maxBackoffMs), ("staleness_ms", .nat s.stalenessMs)]

end CrowdPad

namespace CrowdPad.Value

def toDecimal? : Value → Option Decimal
  | .int n => some ⟨n, 0⟩
  | .real d => some d
  | _ => none

def toRemoteSettings? (v : Value) : Option RemoteSettings := do
  match ← v.toFields? ["connect_timeout_ms", "io_timeout_ms", "initial_backoff_ms",
      "backoff_factor", "max_backoff_ms", "staleness_ms"] with
  | [connectTimeoutMs, ioTimeoutMs, initialBackoffMs, backoffFactor, maxBackoffMs, stalenessMs] =>
    let default : RemoteSettings := {}
    return {
      connectTimeoutMs := ← orDefault default.connectTimeoutMs toNat64? connectTimeoutMs
      ioTimeoutMs := ← orDefault default.ioTimeoutMs toNat64? ioTimeoutMs
      initialBackoffMs := ← orDefault default.initialBackoffMs toNat64? initialBackoffMs
      backoffFactor := ← orDefault default.backoffFactor toDecimal? backoffFactor
      maxBackoffMs := ← orDefault default.maxBackoffMs toNat64? maxBackoffMs
      stalenessMs := ← orDefault default.stalenessMs toNat64? stalenessMs }
  | _ => none

end CrowdPad.Value
