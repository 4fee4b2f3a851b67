import CrowdPad.Dispatch.Worker
import CrowdPad.Scheduler.Basic

/-! A scheduler with the worker that it hands its edges to. -/

namespace CrowdPad

/-- The edges of a team on their way to its target. -/
structure Playback where
  scheduler : Scheduler := {}
  worker : Worker
deriving Repr, DecidableEq

namespace Playback

/-- Walks the lanes and hands the edges over that are due. Those not taken are recorded. -/
def fire (now : Time) (p : Playback) : Playback × List DispatchFailure :=
  let (scheduler, edges) := p.scheduler.tick now p.worker.isAccepting
  let (worker, failures) := p.worker.handOverAll now edges
  ({ scheduler, worker }, failures)

/-- Lets the worker work off what it can. -/
def work (now : Time) (network : Attempt) (device : Device) (p : Playback) :
    Playback × Device × List DispatchFailure :=
  let (worker, device, failures) := p.worker.run now network device
  ({ p with worker }, device, failures)

def retire (p : Playback) : Playback × List Batch :=
  let (scheduler, ended) := p.scheduler.retire
  ({ p with scheduler }, ended)

/-- When something happens next by itself. -/
def nextDue? (p : Playback) : Option Time :=
  (p.scheduler.nextDue?.toList ++ p.worker.wakeAt?.toList).min?

end Playback

end CrowdPad
