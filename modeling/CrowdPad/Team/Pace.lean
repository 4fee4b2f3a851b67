import CrowdPad.Team.Control

/-! A team as time passes. What is due at a moment happens in this order: edges are handed over, a
random verb may be played, the edges that it has due are handed over, the worker works them off, and
batches that are over are taken out. -/

namespace CrowdPad.Team

/-- Hands over the edges that are due. -/
def fire (now : Time) (t : Team) : Team × List Notice :=
  let (playback, failures) := t.playback.fire now
  { t with playback }.recordFailures failures

/-- How late a random verb may be before the times of those behind it move too. -/
def randomSlackMs : Nat := 5

/-- When the time for a random verb comes next, after it has come. -/
def nextRandomAt (now time : Time) (interval : Nat) : Time :=
  if time + randomSlackMs < now then now + interval else time + interval

/-- When the loop that plays random verbs has its next turn, if the time of this one has come. -/
def nextTurn? (now : Time) (t : Team) : Option Time :=
  match t.randomAt, t.config.randomMs with
  | some time, some interval => if now < time then none else some (nextRandomAt now time interval)
  | _, _ => none

def isIdle (t : Team) : Bool := t.scheduler.activeBatches = 0

/-- Starts the batch of a turn of the loop. -/
def startRandom (now : Time) (t : Team) : Team × List Notice :=
  let (t, notices, _) := t.injectRandom now
  (t, notices)

/-- A whole turn of the loop, if its time has come: it reads the switch, then asks for active batches, and then
starts one. It keeps nobody from the team between these three; here nobody is there. -/
def tickRandom (now : Time) (t : Team) : Team × List Notice :=
  match t.nextTurn? now with
  | none => (t, [])
  | some next =>
    let t := { t with randomAt := some next }
    if t.randomOn && t.isIdle then t.startRandom now else (t, [])

def work (now : Time) (network : Attempt) (device : Device) (t : Team) :
    Team × Device × List Notice :=
  let (playback, device, failures) := t.playback.work now network device
  let (t, notices) := { t with playback }.recordFailures failures
  (t, device, notices)

/-- Everything that is due at a moment, with the batches that it ends. -/
def settle (now : Time) (network : Attempt) (device : Device) (t : Team) :
    Team × Device × List Notice × List Batch :=
  let (t, fired) := t.fire now
  let (t, random) := t.tickRandom now
  let (t, firedRandom) := t.fire now
  let (t, device, worked) := t.work now network device
  let (playback, ended) := t.playback.retire
  ({ t with playback }, device, fired ++ random ++ firedRandom ++ worked, ended)

/-- When something happens next by itself. -/
def nextDue? (t : Team) : Option Time :=
  (t.playback.nextDue?.toList ++ t.randomAt.toList).min?

/-- The first half of stopping a team: no more random verbs, and all batches cancelled. -/
def beginStop (t : Team) : Team :=
  { t.withScheduler t.scheduler.cancelAll with randomAt := none }

/-- The second half of stopping a team: the worker is stopped. -/
def endStop (t : Team) : Team × List Notice :=
  ({ t with playback := { t.playback with worker := t.playback.worker.stop } },
    [.log .info "team.stopped" (.record [])])

end CrowdPad.Team
