import CrowdPad.Team.Diagnostics
import CrowdPad.Telemetry.Event

/-! What the teams of one process share: the clock, the files, the device, the network, and where
events go. -/

namespace CrowdPad

/-- Where the notices of a team go. -/
structure Telemetry where
  /-- The name under which they appear. -/
  component : String
  log : Option Log := none
  /-- Whether events are published. -/
  publishes : Bool := true

/-- What the teams of a process share. -/
structure Host where
  now : Time := 0
  /-- When the process began, in milliseconds from the start of 1970. -/
  epochMs : Int := 0
  files : Files := {}
  device : Device := {}
  /-- How attempts to reach a server end. -/
  network : Attempt := .refused
  sink : EventSink := .nowhere
  /-- Events not published yet. -/
  outbox : List Event := []
  /-- The number of events so far. -/
  events : Nat := 0

namespace Host

def log (h : Host) (telemetry : Telemetry) (level : Level) (message : String) (metadata : Value) :
    Host :=
  match telemetry.log with
  | none => h
  | some log =>
    let record : LogRecord := { component := telemetry.component, level, message }
    { h with
      files := log.write h.files (timestamp h.epochMs h.now) (record.withMetadata metadata) }

def post (h : Host) (telemetry : Telemetry) (kind : String) (payload : Value) : Host :=
  if telemetry.publishes then
    let event : Event :=
      { id := "evt-" ++ toString (h.events + 1), source := telemetry.component, kind
        timestamp := Timestamp.text (h.epochMs + h.now) ++ "+00:00", payload }
    { h with outbox := h.outbox ++ [event], events := h.events + 1 }
  else h

def notify (telemetry : Telemetry) (h : Host) : Notice → Host
  | .log level message metadata => h.log telemetry level message metadata
  | .event kind payload => h.post telemetry kind payload
  | .failed failure =>
    let payload := failure.toValue h.epochMs
    (h.log telemetry .error "dispatch.failed" payload).post telemetry "dispatch.failed" payload

def notifyAll (h : Host) (telemetry : Option Telemetry) (notices : List Notice) : Host :=
  match telemetry with
  | none => h
  | some telemetry => notices.foldl (notify telemetry) h

def flush (h : Host) : Host :=
  let (sink, files) := h.outbox.foldl (fun (sink, files) e => sink.publish files e)
    (h.sink, h.files)
  { h with sink, files, outbox := [] }

end Host

end CrowdPad
