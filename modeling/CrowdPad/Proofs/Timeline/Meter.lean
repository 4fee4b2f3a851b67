import CrowdPad.Proofs.Scheduler.Tally
import CrowdPad.Proofs.Timeline.Basic

/-! The counter of pending edges. A counter that goes up by two with every request, and down by one
with every press given up, release passed over and edge handed over, taken or not, shows the number
of edges in lanes at all times; so it never goes below zero. -/

namespace CrowdPad

/-- What a walk takes off a counter, edge by edge. -/
def countOff (now : Time) (cancelled : Bool) (skipped : List Nat) : List Edge → Nat
  | [] => 0
  | e :: rest =>
    match e.transition with
    | .press =>
      if cancelled then countOff now cancelled (e.pair :: skipped) rest + 1
      else if e.fireAt ≤ now then countOff now cancelled skipped rest + 1
      else 0
    | .release =>
      if skipped.contains e.pair then countOff now cancelled (skipped.erase e.pair) rest + 1
      else if e.fireAt ≤ now then countOff now cancelled skipped rest + 1
      else 0

theorem walkLane_countOff (now : Time) (cancelled : Bool) (skipped : List Nat)
    (edges : List Edge) :
    (walkLane now cancelled skipped edges).rest.length + countOff now cancelled skipped edges =
      edges.length := by
  fun_induction countOff now cancelled skipped edges with
  | case1 => rfl
  | case2 skipped e rest hpress hcancelled ih =>
      simp only [walkLane, hpress, hcancelled, if_true, List.length_cons] at ih ⊢
      omega
  | case3 skipped e rest hpress hcancelled hdue ih =>
      simp only [walkLane, hpress, hcancelled, hdue, Bool.false_eq_true, if_true, if_false,
        List.length_cons] at ih ⊢
      omega
  | case4 skipped e rest hpress hcancelled hdue =>
      simp only [walkLane, hpress, hcancelled, hdue, Bool.false_eq_true, if_false, Nat.add_zero]
  | case5 skipped e rest hrelease hskipped ih =>
      simp only [walkLane, hrelease, hskipped, if_true, List.length_cons]
      omega
  | case6 skipped e rest hrelease hskipped hdue ih =>
      simp only [walkLane, hrelease, hskipped, hdue, Bool.false_eq_true, if_true, if_false,
        List.length_cons]
      omega
  | case7 skipped e rest hrelease hskipped hdue =>
      simp only [walkLane, hrelease, hskipped, hdue, Bool.false_eq_true, if_false, Nat.add_zero]

namespace Scheduler

variable {s : Scheduler}

/-- What a tick takes off the counter. -/
def countOff (s : Scheduler) (now : Time) : Nat :=
  (s.lanes.map fun lane =>
    CrowdPad.countOff now (s.isCancelled lane.batch) lane.skipped lane.edges).sum

theorem Orderly.pendingEdges_tick (h : s.Orderly) (now : Time) (accepting : Bool) :
    (s.tick now accepting).1.pendingEdges + s.countOff now = s.pendingEdges := by
  have hafter : (s.tick now accepting).1.pendingEdges =
      (s.lanes.map fun lane => (s.laneAfter now lane).edges.length).sum := by
    rw [pendingEdges, List.length_flatMap,
      ((tick_lanes_perm s now accepting h.ne_nil).map _).sum_nat, sum_map_filter, List.map_map]
    · rfl
    · intro lane _ hempty
      rw [Bool.not_eq_false', List.isEmpty_iff] at hempty
      rw [hempty]
      rfl
  rw [hafter, countOff, pendingEdges, List.length_flatMap]
  induction s.lanes with
  | nil => rfl
  | cons lane lanes ih =>
      have hlane := walkLane_countOff now (s.isCancelled lane.batch) lane.skipped lane.edges
      simp only [List.map_cons, List.sum_cons, laneAfter, Lane.after, walkOf, Lane.walk] at ih ⊢
      omega

theorem pendingEdges_schedule (s : Scheduler) (requests : List Request) (reference : Time) :
    (s.schedule requests reference).1.pendingEdges = s.pendingEdges + 2 * requests.length := by
  rw [pendingEdges, schedule_lanes, List.flatMap_append, List.length_append, length_newLanes]
  rfl

end Scheduler

/-- A timeline with a counter of pending edges that is kept as edges come and go. -/
structure Meter where
  timeline : Timeline := {}
  pending : Int := 0

namespace Meter

def settleAt (time : Time) (m : Meter) : Meter :=
  { timeline := m.timeline.settleAt time
    pending := m.pending - m.timeline.scheduler.countOff time }

def nextDue? (m : Meter) : Option Time := m.timeline.nextDue?

def step (m : Meter) : Step → Meter
  | .schedule requests reference =>
    { timeline := m.timeline.step (.schedule requests reference)
      pending := m.pending + 2 * requests.length }
  | .reach ms =>
    let (now, m) :=
      Clock.wait settleAt nextDue? (fun _ => false) (m.timeline.now + ms) m.timeline.now m
    { m with timeline := { m.timeline with now } }
  | .advance ms =>
    let goal := m.timeline.now + ms
    let m := Clock.advance settleAt nextDue? goal m.timeline.now m
    { m with timeline := { m.timeline with now := goal } }
  | .cancel batch => { m with timeline := m.timeline.step (.cancel batch) }
  | .cancelAll => { m with timeline := m.timeline.step .cancelAll }
  | .stopWorker => { m with timeline := m.timeline.step .stopWorker }

def run (m : Meter) (steps : List Step) : Meter := steps.foldl step m

/-- Whether a meter is on a timeline. -/
def On (m : Meter) (t : Timeline) : Prop := m.timeline = t

theorem On.settleAt (time : Time) (m : Meter) (t : Timeline) (h : m.On t) :
    (m.settleAt time).On (t.settleAt time) :=
  congrArg (Timeline.settleAt time) h

theorem On.nextDue?_eq (m : Meter) (t : Timeline) (h : m.On t) : m.nextDue? = t.nextDue? :=
  congrArg Timeline.nextDue? h

/-- The counter does not interfere. -/
theorem step_timeline (m : Meter) (σ : Step) : (m.step σ).timeline = m.timeline.step σ := by
  cases σ with
  | schedule | cancel | cancelAll | stopWorker => rfl
  | reach ms =>
      obtain ⟨hnow, hon⟩ := Clock.wait_related On.settleAt On.nextDue?_eq (m.timeline.now + ms)
        m.timeline.now (rfl : m.On m.timeline)
      have hwait : _ = (_, Meter.timeline _) := Prod.ext hnow.symm hon.symm
      rw [step, Timeline.step, hwait]
  | advance ms =>
      have hon := Clock.advance_related On.settleAt On.nextDue?_eq (m.timeline.now + ms)
        m.timeline.now (rfl : m.On m.timeline)
      rw [step, Timeline.step, ← hon]

theorem run_timeline (m : Meter) (steps : List Step) :
    (m.run steps).timeline = m.timeline.run steps := by
  induction steps generalizing m with
  | nil => rfl
  | cons σ steps ih =>
      show ((m.step σ).run steps).timeline = (m.timeline.step σ).run steps
      rw [ih, step_timeline]

/-- Whether the counter is right. -/
structure Right (m : Meter) : Prop where
  orderly : m.timeline.scheduler.Orderly
  pending : m.pending = m.timeline.scheduler.pendingEdges

variable {m : Meter}

theorem Right.settleAt (h : m.Right) (time : Time) : (m.settleAt time).Right where
  orderly := (h.orderly.tick time m.timeline.accepting).retire
  pending := by
    have hpending := h.orderly.pendingEdges_tick time m.timeline.accepting
    have hbefore := h.pending
    show m.pending - m.timeline.scheduler.countOff time =
      (m.timeline.scheduler.tick time m.timeline.accepting).1.pendingEdges
    omega

theorem Right.step (h : m.Right) (σ : Step) : (m.step σ).Right := by
  have hsettle : ∀ time (m : Meter), m.Right → (m.settleAt time).Right :=
    fun time _ h => h.settleAt time
  cases σ with
  | schedule requests reference =>
      refine ⟨h.orderly.schedule requests reference, ?_⟩
      have hbefore := h.pending
      have hafter := m.timeline.scheduler.pendingEdges_schedule requests reference
      show m.pending + 2 * requests.length =
        (m.timeline.scheduler.schedule requests reference).1.pendingEdges
      omega
  | cancel batch =>
      refine ⟨?_, h.pending⟩
      show (m.timeline.scheduler.cancel batch).Orderly
      rw [Scheduler.cancel_eq_cancelIf]
      exact h.orderly.cancelIf _
  | cancelAll =>
      refine ⟨?_, h.pending⟩
      show m.timeline.scheduler.cancelAll.Orderly
      rw [Scheduler.cancelAll_eq_cancelIf]
      exact h.orderly.cancelIf _
  | stopWorker => exact ⟨h.orderly, h.pending⟩
  | reach ms =>
      have hwait : (Clock.wait Meter.settleAt nextDue? (fun _ => false) (m.timeline.now + ms)
          m.timeline.now m).2.Right := Clock.wait_keeps (P := Right) hsettle _ _ _ h
      exact ⟨hwait.orderly, hwait.pending⟩
  | advance ms =>
      have hadvance : (Clock.advance Meter.settleAt nextDue? (m.timeline.now + ms)
          m.timeline.now m).Right := Clock.advance_keeps (P := Right) hsettle _ _ h
      exact ⟨hadvance.orderly, hadvance.pending⟩

/-- Along every run the counter shows the number of edges in lanes. -/
theorem run_pending (steps : List Step) :
    (run {} steps).pending = (Timeline.run {} steps).scheduler.pendingEdges := by
  have hright : (run {} steps).Right :=
    List.foldlRecOn steps step ⟨Scheduler.orderly_empty, rfl⟩ fun _ h σ _ => h.step σ
  rw [hright.pending, run_timeline]

end Meter

end CrowdPad
