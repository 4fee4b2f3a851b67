import CrowdPad.Ring
import CrowdPad.Data.Decode
import CrowdPad.Data.Json.Printer
import CrowdPad.Files.Tree

/-! Events that others can follow: in a ring in memory, or as lines of a file. -/

namespace CrowdPad

/-- An event. -/
structure Event where
  id : String
  /-- The part of the program that the event comes from. -/
  source : String
  kind : String
  timestamp : String
  payload : Value
deriving Repr, Inhabited

namespace Event

def toValue (e : Event) : Value :=
  .record [("id", .text e.id), ("source", .text e.source), ("event_type", .text e.kind),
    ("timestamp", .text e.timestamp), ("payload", e.payload.sorted)]

end Event

/-- Where events go. -/
inductive EventSink where
  | nowhere
  | memory (backlog : Ring Event)
  | file (path : String)

namespace EventSink

/-- A ring in memory for so many events. -/
def ofCapacity (capacity : Nat) : EventSink := .memory (.ofCapacity capacity)

/-- A file for events, with the folders around it. -/
def openFile (fs : Files) (path : String) : Except FileFault (Files × EventSink) := do
  let fs ← match Path.parent? path with
    | some parent => fs.createFolders parent
    | none => .ok fs
  return (fs, .file path)

/-- Publishes an event. One that cannot be written is lost. -/
def publish (sink : EventSink) (fs : Files) (e : Event) : EventSink × Files :=
  match sink with
  | .nowhere => (sink, fs)
  | .memory backlog => (.memory (backlog.push e), fs)
  | .file path =>
    match fs.append path (Json.compact e.toValue ++ "\n") with
    | .ok fs => (sink, fs)
    | .error _ => (sink, fs)

/-- The events kept in memory, oldest first. -/
def backlog : EventSink → List Event
  | .memory backlog => backlog.items
  | _ => []

/-- The events of one kind kept in memory, oldest first. -/
def backlogOf (sink : EventSink) (kind : String) : List Event :=
  sink.backlog.filter fun e => e.kind == kind

end EventSink

end CrowdPad
