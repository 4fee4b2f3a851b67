import CrowdPad.Dispatch.Local
import CrowdPad.Dispatch.Remote

/-! The worker of a team, by where its inputs go. -/

namespace CrowdPad

/-- A worker for a target. -/
inductive Worker where
  | here (worker : LocalWorker)
  | remote (worker : RemoteWorker)
deriving Repr, DecidableEq

namespace Worker

/-- The worker that fits a target. -/
def ofTarget (target : Target) (settings : RemoteSettings) : Worker :=
  match target.mode with
  | .here => .here { target }
  | .remote => .remote { target, settings }

def stats : Worker → DispatchStats
  | .here w => w.stats
  | .remote w => w.stats

/-- Whether a worker takes edges. -/
def isAccepting : Worker → Bool
  | .here w => !w.stopped
  | .remote w => !w.stopped

def handOver (e : Edge) : Worker → Except DispatchError Worker
  | .here w => (w.handOver e).map .here
  | .remote w => (w.handOver e).map .remote

/-- Hands edges over in order; those that are not taken are recorded. -/
def handOverAll (now : Time) (worker : Worker) : List Edge → Worker × List DispatchFailure
  | [] => (worker, [])
  | e :: rest =>
    match worker.handOver e with
    | .ok worker => worker.handOverAll now rest
    | .error error =>
      let (worker, failures) := worker.handOverAll now rest
      (worker, .of now e error :: failures)

/-- Stops a worker; what it has not worked off is lost. -/
def stop : Worker → Worker
  | .here w => .here w.stop
  | .remote w => .remote w.stop

/-- Works off what can be worked off now. Every attempt to reach a server ends like the given one.
-/
def run (now : Time) (network : Attempt) (device : Device) :
    Worker → Worker × Device × List DispatchFailure
  | .here w =>
    let (w, device, failures) := w.run now device
    (.here w, device, failures)
  | .remote w =>
    let (w, _, failures) := w.run now network
    (.remote w, device, failures)

/-- When a worker goes on by itself. -/
def wakeAt? : Worker → Option Time
  | .here _ => none
  | .remote w => w.wakeAt

end Worker

end CrowdPad
