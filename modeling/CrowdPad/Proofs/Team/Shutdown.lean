import CrowdPad.Proofs.Team.Closing
import CrowdPad.Proofs.Team.Journal

/-! Stopping a team that has keys down. The running program has everything that is due at a moment done in one
order: edges are handed over, the worker applies them, and then batches that are over are taken out. So its
wait is one of those in which batches are taken out in order, and no key that the device pressed stays down.
Where batches may be taken out before the worker has had its turn, a release may be lost. -/

namespace CrowdPad

/-! ### Stopping -/

theorem Team.isIdle_iff {t : Team} : t.isIdle ↔ t.scheduler.batches = [] :=
  decide_eq_true_iff.trans List.length_eq_zero_iff

namespace Journal

def beginStop (j : Journal) : Journal := { j with station := j.station.live .beginStop }

/-- Waits for a team to be idle, at most for so many milliseconds. -/
def untilIdle (graceMs : Nat) (j : Journal) : Time × Journal :=
  let now := j.station.host.now
  Clock.wait settle nextDue? (fun j => j.station.team.isIdle) (now + graceMs) now j

/-- Hands over what is due at a moment, and stops the worker. -/
def cutOff (now : Time) (j : Journal) : Journal :=
  let j := (j.moveTo now).step .fire
  { j with station := j.station.live .endStop }

def shutdown (graceMs : Nat) (j : Journal) : Journal :=
  let waited := j.beginStop.untilIdle graceMs
  waited.2.cutOff waited.1

variable (j : Journal)

theorem station_untilIdle (graceMs : Nat) : (j.untilIdle graceMs).1 = (j.station.untilIdle graceMs).1 ∧
    (j.untilIdle graceMs).2.station = (j.station.untilIdle graceMs).2 := by
  refine Clock.wait_related_until (R := fun (j : Journal) s => j.station = s) ?_ ?_ ?_ _ _ rfl
  · rintro now j _ rfl
    rfl
  · rintro j _ rfl
    rfl
  · rintro j _ rfl
    rfl

/-- A journal follows its team when the team is stopped. -/
theorem station_shutdown (graceMs : Nat) : (j.shutdown graceMs).station = j.station.shutdown graceMs := by
  obtain ⟨hnow, hstation⟩ := j.beginStop.station_untilIdle graceMs
  exact congrArg₂ (fun now s => Station.cutOff now s) hnow hstation

/-! ### The wait -/

variable {j} {target : Target} {now goal : Time} {begun : List Edge}

theorem tickRandom_of_none (h : j.station.team.randomAt = none) :
    (j.station.team.fire now).1.tickRandom now = ((j.station.team.fire now).1, []) := by
  have hnone : (j.station.team.fire now).1.randomAt = none := h
  rw [Team.tickRandom, Team.nextTurn?, hnone]

theorem due_of_none (h : j.station.team.randomAt = none) : j.due now = (j.ledger.fire now).fire now := by
  rw [due, played, tickRandom_of_none h]
  rfl

/-- A team as it begins to stop. -/
def stopping (j : Journal) : Stopping := { now := j.station.host.now, ledger := j.beginStop.ledger }

theorem beginStop_now (j : Journal) : j.beginStop.station.host.now = j.station.host.now :=
  Host.notifyAll_now ..

theorem ledger_beginStop (j : Journal) :
    j.beginStop.ledger = j.ledger.withScheduler (j.ledger.scheduler.cancelIf fun _ => true) := by
  rw [← Scheduler.cancelAll_eq_cancelIf]
  exact Ledger.ext rfl (Host.notifyAll_device ..) rfl rfl

theorem closing_stopping (h : j.ledger.Sound target j.station.host.now)
    (hsoon : ∀ release ∈ j.ledger.owed, release.fireAt < goal) :
    j.stopping.ledger.Closing target goal j.ledger.presses j.stopping.now := by
  show j.beginStop.ledger.Closing target goal j.ledger.presses j.station.host.now
  rw [ledger_beginStop]
  refine ⟨h.cancelIf fun _ => true, fun b hb => ?_, rfl, hsoon⟩
  obtain ⟨before, -, rfl⟩ := List.mem_map.mp hb
  rfl

/-- Cancelled batches are still under way. -/
theorem attended_stopping (h : j.ledger.Attended) : j.stopping.ledger.Attended := by
  show j.beginStop.ledger.Attended
  rw [ledger_beginStop]
  intro e he
  obtain ⟨b, hb, hid⟩ := Scheduler.isActive_iff.mp (h e he)
  exact Scheduler.isActive_iff.mpr ⟨_, List.mem_map_of_mem hb, hid⟩

/-- A team on its way to its end, to which nothing happens by chance. -/
structure Closes (start : Stopping) (target : Target) (goal : Time) (begun : List Edge) (now : Time)
    (j : Journal) : Prop where
  closing : j.ledger.Closing target goal begun now
  random : j.station.team.randomAt = none
  reached : start.Reaches { now, ledger := j.ledger }

variable {start : Stopping}

theorem Closes.settle (h : j.Closes start target goal begun now) :
    (j.settle now).Closes start target goal begun now ∧ (j.settle now).ledger.Walked := by
  obtain ⟨w, hworker, -⟩ := h.closing.fire.fire.sound.here
  obtain ⟨hclosing, hreached⟩ := Ledger.work_of_apply hworker
    (P := fun l => l.Closing target goal begun now ∧ start.Reaches { now, ledger := l })
    (fun _ h => ⟨h.1.apply, h.2.step .apply nofun nofun⟩) j.station.host.network
    ⟨h.closing.fire.fire, (h.reached.step .fire nofun nofun).step .fire nofun nofun⟩
  have hempty := Ledger.queue_work hworker now j.station.host.network
  have hretired := hreached.step .retire nofun fun _ e he => absurd (hempty ▸ he) List.not_mem_nil
  have hrandom : ((j.station.team.fire now).1.tickRandom now).1.randomAt = none := by
    rw [tickRandom_of_none h.random]
    exact h.random
  rw [← due_of_none h.random] at hclosing hretired
  refine ⟨⟨?_, hrandom, ?_⟩, ?_⟩
  · rw [ledger_settle]
    exact hclosing.retire
  · rw [ledger_settle]
    exact hretired
  · rw [ledger_settle, due_of_none h.random]
    exact Ledger.walked_settle h.closing.fire.sound.orderly _

/-- What holds of a team that was settled holds until the clock stops again. -/
theorem Closes.stop (h : j.Closes start target goal begun now) (last : Time) :
    (j.settle now).Closes start target goal begun (Clock.stop now last (j.settle now).nextDue?) := by
  obtain ⟨hsettled, hwalked⟩ := h.settle
  have hrests : (j.settle now).ledger.Rests (Clock.stop now last (j.settle now).nextDue?) :=
    ⟨hwalked, fun _ he => stop_le_of_mem_waiting Ledger.sound_keeps now last h.closing.sound he⟩
  refine ⟨hsettled.closing.later hrests.due, hsettled.random, ?_⟩
  refine hsettled.reached.step (.later _) ?_ nofun
  rintro _ ⟨rfl⟩
  exact ⟨(Clock.lt_stop now last _).le, hrests⟩

theorem Closes.untilIdle {graceMs : Nat} (h : j.Closes start target goal begun j.station.host.now)
    (hgoal : j.station.host.now + graceMs = goal) :
    let waited := j.untilIdle graceMs
    waited.2.Closes start target goal begun waited.1 ∧
      (waited.2.station.team.isIdle ∨ goal ≤ waited.1) := by
  subst hgoal
  intro waited
  rcases Clock.wait_cases
    (P := fun now (later : Journal) => later.Closes start target (j.station.host.now + graceMs) begun now)
    (Q := fun now (later : Journal) => later.Closes start target (j.station.host.now + graceMs) begun now)
    (fun _ _ h => h.settle.1) (fun _ goal _ h => h.stop goal) (fun _ _ h => h)
    (fun j => j.station.team.isIdle) (j.station.host.now + graceMs) j.station.host.now h with
    ⟨hwaited, hover⟩ | hover
  · have hsame : waited = (j.station.host.now, j) := hwaited
    rw [hsame]
    exact ⟨h, hover⟩
  · exact hover

theorem ledger_cutOff (now : Time) : (j.cutOff now).ledger = (j.ledger.fire now).stop := by
  have hfire : ((j.moveTo now).step .fire).ledger = j.ledger.fire now := (j.moveTo now).ledger_fire
  rw [← hfire]
  exact Ledger.ext rfl (Host.notifyAll_device ..) rfl rfl

/-- **The running program stops in order.** Its wait is one in which time passes over nothing that is due and
batches are taken out only when none of their edges is queued any more. -/
theorem shutdown_reaches (h : j.ledger.Sound target j.station.host.now) (graceMs : Nat)
    (hsoon : ∀ release ∈ j.ledger.owed, release.fireAt < j.station.host.now + graceMs) :
    ∃ p, j.stopping.Reaches p ∧ p.IsOver (j.station.host.now + graceMs) ∧
      (j.shutdown graceMs).ledger = p.ledger.stop := by
  have hcloses : j.beginStop.Closes j.stopping target (j.station.host.now + graceMs) j.ledger.presses
      j.beginStop.station.host.now := by
    rw [beginStop_now]
    exact ⟨closing_stopping h hsoon, rfl, .refl _⟩
  obtain ⟨hwaited, hover⟩ := hcloses.untilIdle (by rw [beginStop_now])
  refine ⟨_, hwaited.reached.step .fire nofun nofun, ?_, ledger_cutOff _⟩
  exact hover.imp_left fun hidle => Ledger.batches_fire_eq_nil (Team.isIdle_iff.mp hidle)

/-! ### Stopping in any order -/

/-- **What a shutdown loses.** Whatever was done to a team with a device, and in whatever order its lanes, its
worker and what takes out batches have their turns while it is to stop and nothing new is scheduled: if every
release that is still to come for a press handed over is due before the time to wait is over, no batch is
active once the lanes had one more turn, and at once if there was any time to wait. No press is handed over
from the moment on at which the team is to stop, and behind the stop the device does no more. Every press that
it did is followed by its release exactly if nothing is lost with the queue of the worker; so it is if batches
are taken out only when none of their edges is queued any more, which is how the running program stops. -/
theorem shutdown_loses_only_queued {host : Host} {seed : Nat} {config : TeamConfig} {verbs : VerbTable}
    {telemetry : Option Telemetry} {s : Station}
    (hstart : Station.start host seed config verbs telemetry = .ok s) (hhere : config.target.mode = .here)
    (hfresh : host.device.inputs = []) (steps : List TeamStep) (graceMs : Nat)
    (hsoon : ∀ release ∈ (run { station := s } steps).ledger.owed,
      release.fireAt < (s.run steps).host.now + graceMs) :
    let j := run { station := s } steps
    let goal := (s.run steps).host.now + graceMs
    ((j.shutdown graceMs).station = (s.run steps).shutdown graceMs ∧
      ∃ p, j.stopping.Reaches p ∧ p.IsOver goal ∧ (j.shutdown graceMs).ledger = p.ledger.stop) ∧
    ∀ waiting, j.stopping.Makes Stopping.IsTimely waiting → (j.stopping.run waiting).IsOver goal →
      let last := (j.stopping.run waiting).ledger
      (∀ later, (last.stop.fire later).retire.scheduler.activeBatches = 0) ∧
      (0 < graceMs → last.scheduler.activeBatches = 0) ∧
      (∀ stopped : Journal, stopped.ledger = last.stop → ∀ later,
        (stopped.run later).ledger.presses = j.ledger.presses ∧
        (stopped.run later).station.host.device.inputs =
          last.applied.map fun p => LocalWorker.input p.1 config.target.player p.2) ∧
      (last.Released ↔ last.lost = []) ∧
      (0 < graceMs → j.ledger.Attended → j.stopping.Makes Stopping.IsInOrder waiting → last.Released) := by
  intro j goal
  have hstation : j.station = s.run steps := station_run _ steps
  have hsound : j.ledger.Sound config.target j.station.host.now :=
    keeps_run Ledger.sound_keeps (sound_start hstart hhere hfresh) steps
  rw [← hstation] at hsoon
  have hgoal : j.station.host.now + graceMs = goal := by rw [hstation]
  have hclosing := closing_stopping hsound hsoon
  have hshutdown := j.station_shutdown graceMs
  rw [hstation] at hshutdown
  rw [hgoal] at hclosing
  refine ⟨⟨hshutdown, hgoal ▸ shutdown_reaches hsound graceMs hsoon⟩, ?_⟩
  intro waiting htimely hover last
  have hlast := Stopping.closing_run htimely hclosing
  have hended := hlast.ended hover
  have hidle : 0 < graceMs → last.scheduler.batches = [] := by
    intro hgrace
    refine Stopping.idle_run htimely hclosing ?_ hover
    show j.station.host.now < goal
    lia
  refine ⟨fun later => ?_, fun hgrace => List.length_eq_zero_iff.mpr (hidle hgrace), ?_, hended.released_iff, ?_⟩
  · have hlanes := hended.sound.orderly.tick_lanes_eq_nil hended.planned later false
    exact List.length_eq_zero_iff.mpr (Ledger.batches_retire_eq_nil hlanes)
  · intro stopped hstopped later
    have hhalted := keeps_run (Ledger.halted_keeps last.handed last.device.inputs)
      (j := stopped) (hstopped ▸ hended.halted) later
    constructor
    · rw [Ledger.presses, hhalted.handed]
      exact hended.presses
    · rw [← hended.sound.inputs]
      exact hhalted.inputs
  · intro hgrace hattended horder
    have hlater := Stopping.attended_run htimely hclosing horder (attended_stopping hattended)
    have hempty := hlater.queue_eq_nil (hidle hgrace)
    refine hended.released_iff.mpr ?_
    rw [Ledger.lost, hempty]
    rfl

/-- The press or the release of a jump by chance. -/
def jumpEdge (fireAt : Time) (transition : Transition) : Edge :=
  { batch := 1, pair := 0, fireAt, key := "a", verb := "jump", transition }

/-- What is under way when the key of a jump is down. -/
def downLedger (cancelled : Bool) : Ledger where
  playback :=
    { scheduler :=
        { batches := [{ id := 1, requested := 1, cancelled, tally := { presses := 1 } }]
          lanes := [{ batch := 1, edges := [jumpEdge 50 .release] }]
          nextBatch := 2
          nextPair := 1 }
      worker := .here { target := {}, stats := { delivered := 1 } } }
  device := { failing := ["b"], inputs := [{ time := 0, player := 0, key := "a", transition := .press }] }
  handed := [jumpEdge 0 .press]
  worked := [(0, jumpEdge 0 .press)]

/-- A team with a device plays a jump by chance, and its key goes down. -/
def jumping : Journal := run { station := Station.twoKeys } [.reseed 2, .injectRandom, .fire, .work]

theorem ledger_jumping : jumping.ledger = downLedger false := by cbv

theorem stopping_jumping : jumping.stopping = { now := 0, ledger := downLedger true } := by
  rw [stopping, ledger_beginStop, ledger_jumping]
  rfl

/-- Until the key has to come up again nothing is left to do. -/
theorem timely_jumping {rest : List StopStep}
    (hrest : ({ now := 50, ledger := downLedger true } : Stopping).Makes Stopping.IsTimely rest) :
    jumping.stopping.Makes Stopping.IsTimely (.later 50 :: rest) := by
  rw [stopping_jumping]
  refine ⟨?_, hrest⟩
  rintro _ ⟨rfl⟩
  exact ⟨by decide, ⟨⟨by decide, by decide⟩, by decide⟩⟩

/-- The worker has its turn before the batch is taken out. -/
theorem shutdown_loses_only_queued_of_jump :
    let waiting : List StopStep := [.later 50, .fire, .apply, .retire]
    jumping.ledger.owed = [jumpEdge 50 .release] ∧ (jumping.stopping.run waiting).ledger.Released := by
  intro waiting
  have hstart : Station.start Station.twoKeys.host 0 Station.twoKeys.team.config
      Station.twoKeys.team.verbs none = .ok Station.twoKeys := rfl
  have howed : jumping.ledger.owed = [jumpEdge 50 .release] := by
    rw [ledger_jumping]
    decide
  have htimely : jumping.stopping.Makes Stopping.IsTimely waiting :=
    timely_jumping ⟨nofun, nofun, nofun, trivial⟩
  have hover : (jumping.stopping.run waiting).ledger.scheduler.batches = [] := by
    rw [stopping_jumping]
    decide
  have hkept : (jumping.stopping.run waiting).ledger.lost = [] := by
    rw [stopping_jumping]
    decide
  have hsoon : ∀ release ∈ jumping.ledger.owed, release.fireAt <
      (Station.twoKeys.run [.reseed 2, .injectRandom, .fire, .work]).host.now + (51 : Nat) := by
    rw [howed]
    decide
  obtain ⟨-, hwaits⟩ := shutdown_loses_only_queued hstart rfl rfl
    [.reseed 2, .injectRandom, .fire, .work] 51 hsoon
  obtain ⟨-, -, -, hreleased, -⟩ := hwaits waiting htimely (.inl hover)
  exact ⟨howed, hreleased.mpr hkept⟩

/-- Where the batch is taken out first, the team is idle, the wait is over, and the release is lost. -/
theorem release_lost_out_of_order :
    let waiting : List StopStep := [.later 50, .fire, .retire]
    let last := (jumping.stopping.run waiting).ledger
    (∀ release ∈ jumping.ledger.owed, release.fireAt < jumping.station.host.now + 1000) ∧
      jumping.stopping.Makes Stopping.IsTimely waiting ∧ last.scheduler.activeBatches = 0 ∧
      last.stop.device.inputs.map (·.transition) = [.press] ∧
      last.lost = [jumpEdge 50 .release] ∧ ¬last.Released := by
  intro waiting last
  have htimely : jumping.stopping.Makes Stopping.IsTimely waiting := timely_jumping ⟨nofun, nofun, trivial⟩
  have hlast : last = (Stopping.run { now := 0, ledger := downLedger true } waiting).ledger :=
    congrArg (fun p : Stopping => (p.run waiting).ledger) stopping_jumping
  rw [hlast, ledger_jumping]
  refine ⟨by decide, htimely, by decide, by decide, by decide, fun hreleased => ?_⟩
  obtain ⟨release, hrelease, -⟩ := hreleased [] (jumpEdge 0 .press) [] rfl rfl
  exact absurd hrelease List.not_mem_nil

end Journal

end CrowdPad
