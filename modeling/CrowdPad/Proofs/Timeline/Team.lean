import CrowdPad.Proofs.Timeline.Basic
import CrowdPad.Team.Pace

/-! Teams on timelines. A team that plays nothing at random goes through the same moments as the
timeline of its scheduler, and hands its worker what departs there; what holds of every run of a
timeline therefore holds of what such a team presses and releases. -/

namespace CrowdPad

/-! ### Workers -/

theorem Worker.isAccepting_of_handOver {w next : Worker} {e : Edge} (h : w.handOver e = .ok next) :
    next.isAccepting = w.isAccepting := by
  cases w with
  | here w =>
      by_cases hstopped : w.stopped
      · rw [handOver, LocalWorker.handOver, if_pos hstopped] at h
        cases h
      · rw [handOver, LocalWorker.handOver, if_neg hstopped] at h
        cases h
        rfl
  | remote w =>
      by_cases hstopped : w.stopped
      · rw [handOver, RemoteWorker.handOver, if_pos hstopped] at h
        cases h
      · rw [handOver, RemoteWorker.handOver, if_neg hstopped] at h
        cases h
        rfl

/-- Edges do not stop a worker. -/
theorem Worker.isAccepting_handOverAll (now : Time) (w : Worker) (edges : List Edge) :
    (w.handOverAll now edges).1.isAccepting = w.isAccepting := by
  induction edges generalizing w with
  | nil => rfl
  | cons e rest ih =>
      rw [handOverAll]
      cases hhanded : w.handOver e with
      | error error => exact ih w
      | ok next => exact (ih next).trans (isAccepting_of_handOver hhanded)

/-! ### Teams -/

namespace Team

variable (t : Team) (now : Time)

/-- The timeline on which a team stands. -/
def timeline : Timeline :=
  { now, scheduler := t.scheduler, accepting := t.playback.worker.isAccepting }

theorem fire_scheduler : (t.fire now).1.scheduler =
    (t.scheduler.tick now t.playback.worker.isAccepting).1 := rfl

theorem fire_fire_scheduler : ((t.fire now).1.fire now).1.scheduler = (t.fire now).1.scheduler := by
  rw [fire_scheduler, fire_scheduler, Scheduler.tick_tick]

/-- A team to which nothing happens by chance settles like its timeline: the same edges go to its
worker, which goes on taking edges or not, the same batches end, and the same scheduler is left. -/
theorem settle_eq_timeline (network : Attempt) (device : Device) (hrandom : t.randomAt = none) :
    (t.fire now).1.playback.worker = (t.playback.worker.handOverAll now
        ((t.timeline now).settle.departures.map (·.edge))).1 ∧
      (t.fire now).1.playback.worker.isAccepting = (t.timeline now).settle.accepting ∧
      (t.settle now network device).2.2.2 = (t.timeline now).settle.reports.map (·.2) ∧
      (t.settle now network device).1.scheduler = (t.timeline now).settle.scheduler := by
  have hchance : (t.fire now).1.tickRandom now = ((t.fire now).1, []) := by
    have hnone : (t.fire now).1.randomAt = none := hrandom
    rw [tickRandom, nextTurn?, hnone]
  have hended : (t.settle now network device).2.2.2 =
      (((t.fire now).1.tickRandom now).1.fire now).1.scheduler.retire.2 := rfl
  have hleft : (t.settle now network device).1.scheduler =
      (((t.fire now).1.tickRandom now).1.fire now).1.scheduler.retire.1 := rfl
  refine ⟨?_, Worker.isAccepting_handOverAll now t.playback.worker _, ?_, ?_⟩
  · have hedges : (t.timeline now).settle.departures.map (·.edge) =
        (t.scheduler.tick now t.playback.worker.isAccepting).2 := by
      rw [Timeline.settle, Timeline.settleAt]
      simp only [timeline, List.nil_append, List.map_map]
      exact List.map_id _
    rw [hedges]
    rfl
  · rw [hended, hchance, fire_fire_scheduler, fire_scheduler, Timeline.settle, Timeline.settleAt]
    simp only [timeline, List.nil_append, List.map_map]
    exact (List.map_id _).symm
  · rw [hleft, hchance, fire_fire_scheduler, fire_scheduler]
    rfl

end Team

end CrowdPad
