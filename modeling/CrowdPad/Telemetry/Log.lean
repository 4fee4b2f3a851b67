import CrowdPad.Telemetry.Timestamp
import CrowdPad.Data.Decode
import CrowdPad.Data.Json.Printer
import CrowdPad.Files.Tree

/-! Logs: one JSON object a line. Records below a level are left out. -/

namespace CrowdPad

/-- How severe a record is. -/
inductive Level where
  | debug
  | info
  | warn
  | error
deriving Repr, DecidableEq, Inhabited

namespace Level

def names : List (String × Level) :=
  [("DEBUG", .debug), ("INFO", .info), ("WARN", .warn), ("ERROR", .error)]

def name : Level → String
  | .debug => "DEBUG"
  | .info => "INFO"
  | .warn => "WARN"
  | .error => "ERROR"

/-- The place of a level in the order of severity. -/
def rank : Level → Nat
  | .debug => 0
  | .info => 1
  | .warn => 2
  | .error => 3

end Level

/-- A record of a log. -/
structure LogRecord where
  /-- The part of the program that the record comes from. -/
  component : String
  level : Level
  message : String
  metadata : List (String × Value) := []
deriving Repr, Inhabited

namespace LogRecord

/-- Sets a field of the metadata. -/
def withField (r : LogRecord) (name : String) (value : Value) : LogRecord :=
  { r with metadata := Value.putEntry name value r.metadata }

/-- Replaces the metadata by the fields of a record; other values are ignored. -/
def withMetadata (r : LogRecord) : Value → LogRecord
  | .record fields => { r with metadata := fields }
  | _ => r

/-- The record as a document value, stamped with a time. -/
def toValue (r : LogRecord) (timestamp : String) : Value :=
  .record <|
    [("timestamp", .text timestamp), ("module", .text r.component), ("level", .text r.level.name),
      ("message", .text r.message)] ++
    if r.metadata.isEmpty then [] else [("metadata", (Value.record r.metadata).sorted)]

end LogRecord

/-- A log file that is open for writing. -/
structure Log where
  path : String
  minLevel : Level := .debug
deriving Repr, DecidableEq, Inhabited

namespace Log

/-- Opens a log, creating its file and the folders around it. The files as they are left are returned
in any case. -/
def tryOpen (fs : Files) (path : String) (minLevel : Level) : Files × Except FileFault Log :=
  let (fs, room) := match Path.parent? path with
    | some parent => fs.makeFolders parent
    | none => (fs, .ok ())
  match room with
  | .error fault => (fs, .error fault)
  | .ok () =>
    match fs.append path "" with
    | .ok fs => (fs, .ok { path, minLevel })
    | .error fault => (fs, .error fault)

/-- Opens a log, creating its file and the folders around it. -/
def openAt (fs : Files) (path : String) (minLevel : Level) : Except FileFault (Files × Log) :=
  match tryOpen fs path minLevel with
  | (fs, .ok log) => .ok (fs, log)
  | (_, .error fault) => .error fault

/-- Writes a record. What is written to a file that was deleted is lost. -/
def write (log : Log) (fs : Files) (timestamp : String) (r : LogRecord) : Files :=
  if r.level.rank < log.minLevel.rank || (fs.at? log.path).isNone then fs
  else
    match fs.append log.path (Json.compact (r.toValue timestamp) ++ "\n") with
    | .ok fs => fs
    | .error _ => fs

end Log

def Value.toLevel? : Value → Option Level := toChoice? Level.names

end CrowdPad
