import CrowdPad.Team.Basic

/-! What a team says about itself. -/

namespace CrowdPad

/-- A moment as text, of a process that began so many milliseconds after the start of 1970. -/
def timestamp (epochMs : Int) (time : Time) : String := Timestamp.text (epochMs + time) ++ "Z"

namespace DispatchFailure

def toValue (epochMs : Int) (f : DispatchFailure) : Value :=
  .record [("at", .text (timestamp epochMs f.time)), ("kind", .text f.kind.name),
    ("batch_id", .nat f.batch), ("verb", .text f.verb), ("key", .text f.key),
    ("transition", .text f.transition.name), ("detail", .text f.detail)]

end DispatchFailure

namespace Dropped

def toValue (epochMs : Int) (d : Dropped) : Value :=
  .record [("at", .text (timestamp epochMs d.time)), ("author", .text d.author),
    ("reason", .text d.reason)]

end Dropped

namespace TeamCounters

def toValue (c : TeamCounters) : Value :=
  .record [("messages", .nat c.messages), ("duplicates", .nat c.duplicates),
    ("batches", .nat c.batches), ("requests", .nat c.requests), ("dropped", .nat c.dropped),
    ("random_injections", .nat c.randomInjections), ("cancellations", .nat c.cancellations)]

end TeamCounters

namespace Team

def diagnostics (epochMs : Int) (t : Team) : Value :=
  .record [("team", .text t.name), ("profile", .text t.verbs.profile),
    ("target", .text t.config.target.describe), ("pending_events", .nat t.scheduler.pendingEdges),
    ("active_batches", .nat t.scheduler.activeBatches),
    ("macros", .nat t.macros.entries.length), ("random_inputs", .bool t.randomOn),
    ("counters", t.counters.toValue), ("dispatch", t.playback.worker.stats.toValue),
    ("last_parse_errors", .list (t.dropped.items.map (Dropped.toValue epochMs))),
    ("last_dispatch_failures", .list (t.failures.items.map (DispatchFailure.toValue epochMs)))]

end Team

end CrowdPad
