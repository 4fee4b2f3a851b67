import CrowdPad.Team.Basic

/-! What an operator can do to a team: cancel, reset, and play random verbs. -/

namespace CrowdPad.Team

/-- Cancels all batches, and says how many there were. -/
def cancelAll (t : Team) : Team × List Notice × Nat :=
  let batches := t.scheduler.activeBatches
  ({ t.withScheduler t.scheduler.cancelAll with
      counters := { t.counters with cancellations := t.counters.cancellations + 1 } },
    [.log .info "team.cancelled" <| .record [("batches", .nat batches)]], batches)

/-- The second half of a reset: cancels, forgets and takes over what was read from the macro file.
-/
def takeReset (now : Time) (file : Option MacroFile) (t : Team) : Team × List Notice :=
  let (t, notices, _) := t.cancelAll
  let t := { t with recent := [], dropped := t.dropped.clear, failures := t.failures.clear }
  (t.withMacroFile now (file.getD {}), notices ++ [.log .info "team.reset" (.record [])])

/-- Cancels all batches, forgets recent messages and diagnostics, and loads the macros again.
Nothing happens if the macro file cannot be read. -/
def reset (fs : Files) (now : Time) (t : Team) : Except TeamError (Team × List Notice) := do
  return t.takeReset now (← readMacroFile fs t.config)

def nextSeed (seed : Nat) : Nat := (seed * 6364136223846793005 + 1442695040888963407) % UInt64.size

/-- The verb that the seed of a team picks. -/
def randomVerb? (t : Team) : Option Verb :=
  t.verbs.pick? (nextSeed t.seed / UInt16.size % t.verbs.pickBound)

/-- Plays a random verb now, with the timing it has by default. -/
def injectRandom (now : Time) (t : Team) : Team × List Notice × Option Nat :=
  match t.randomVerb? with
  | none => (t, [], none)
  | some verb =>
    match ({} : Timing).request verb with
    | .error _ => (t, [], none)
    | .ok request =>
      let (scheduler, batch) := t.scheduler.schedule [request] now
      let t := { t.withScheduler scheduler with
        seed := nextSeed t.seed
        counters := { t.counters with randomInjections := t.counters.randomInjections + 1 } }
      (t, [.event "random.injected" <| .record [("batch", .nat batch), ("verb", .text verb.name)]],
        some batch)

def setRandom (on : Bool) (t : Team) : Team := { t with randomOn := on }

end CrowdPad.Team
