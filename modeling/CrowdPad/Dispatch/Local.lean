import CrowdPad.Dispatch.Basic
import CrowdPad.Target

/-! The worker of a team whose inputs go to the device of this process. It applies edges in the
order in which they were handed over; one that the device refuses is recorded and does not hold up
the next. -/

namespace CrowdPad

/-- A worker and the edges it has not applied yet. -/
structure LocalWorker where
  target : Target
  queue : List Edge := []
  stopped : Bool := false
  stats : DispatchStats := {}
deriving Repr, DecidableEq, Inhabited

namespace LocalWorker

def handOver (w : LocalWorker) (e : Edge) : Except DispatchError LocalWorker :=
  if w.stopped then .error (.workerStopped w.target.describe)
  else
    .ok { w with queue := w.queue ++ [e], stats := { w.stats with queued := w.stats.queued + 1 } }

/-- Stops the worker. Edges still queued are lost, and stay counted as queued. -/
def stop (w : LocalWorker) : LocalWorker := { w with queue := [], stopped := true }

/-- The counters behind an edge that was applied, or not. -/
def count (stats : DispatchStats) (applied : Bool) : DispatchStats :=
  let stats := { stats with queued := stats.queued - 1 }
  if applied then { stats with delivered := stats.delivered + 1 }
  else { stats with failed := stats.failed + 1 }

/-- Applies edges to a device, and counts and records what comes of them. -/
def applyAll (now : Time) (player : Nat) (device : Device) (stats : DispatchStats) :
    List Edge → Device × DispatchStats × List DispatchFailure
  | [] => (device, stats, [])
  | e :: rest =>
    match device.apply { time := now, player, key := e.key, transition := e.transition } with
    | .ok device => applyAll now player device (count stats true) rest
    | .error reason =>
      let (device, stats, failures) := applyAll now player device (count stats false) rest
      (device, stats, .of now e (.device reason) :: failures)

def run (now : Time) (device : Device) (w : LocalWorker) :
    LocalWorker × Device × List DispatchFailure :=
  let (device, stats, failures) := applyAll now w.target.player device w.stats w.queue
  ({ w with queue := [], stats }, device, failures)

end LocalWorker

end CrowdPad
