import CrowdPad.Proofs.Dispatch.Move
import CrowdPad.Proofs.Team.Recent
import CrowdPad.Proofs.Timeline.Team

/-! Teams at rest. A team for which all that was due has been done does nothing, however often it is
settled, until the moment at which it says that it goes on: no edge is due, nothing is played at random,
and a worker that has edges left waits before its next attempt. -/

namespace CrowdPad

/-! ### Workers -/

namespace RemoteWorker

variable {w : RemoteWorker} {now : Time}

/-- A worker stops moving only for want of edges, or because it has to wait. -/
theorem rests_of_runMoves (now : Time) (a : Attempt) (fuel : Nat) (w : RemoteWorker)
    (hfuel : w.toDo ≤ fuel) :
    (runMoves now a fuel w).1.isWaiting now ∨ (runMoves now a fuel w).1.pending = [] := by
  induction fuel generalizing w with
  | zero => exact .inr (w.pending_eq_nil (Nat.le_zero.mp hfuel))
  | succ fuel ih =>
      rw [runMoves]
      split
      · rename_i hrests
        rw [Bool.or_eq_true, List.isEmpty_iff] at hrests
        exact hrests
      · rcases (moved_move w now a).toDo_le with hwaits | hcloser
        · -- A worker that waits makes no further move.
          have hstays : runMoves now a fuel (w.move now a).worker = ((w.move now a).worker, [], []) := by
            cases fuel with
            | zero => rfl
            | succ fuel => rw [runMoves, hwaits, Bool.true_or, if_pos rfl]
          simp only [hstays]
          exact .inl hwaits
        · exact ih _ (by omega)

/-- A worker that waits, or has nothing to write, stays as it is. -/
theorem run_of_rests (a : Attempt) (h : w.isWaiting now ∨ w.pending = []) :
    w.run now a = (w, [], []) := by
  rw [run]
  cases hfuel : 2 * w.pending.length with
  | zero => rfl
  | succ fuel =>
      have hrests : (w.isWaiting now || w.pending.isEmpty) = true := by
        rw [Bool.or_eq_true, List.isEmpty_iff]
        exact h
      rw [runMoves, if_pos hrests]

end RemoteWorker

/-- A worker that has worked off what it can does no more until it wakes up. -/
theorem Worker.run_run (w : Worker) (now later : Time) (a a' : Attempt) (device device' : Device)
    (hlater : ∀ due, (w.run now a device).1.wakeAt? = some due → later < due) :
    (w.run now a device).1.run later a' device' = ((w.run now a device).1, device', []) := by
  cases w with
  | here w => rfl
  | remote w =>
      have hrests : (w.run now a).1.isWaiting later ∨ (w.run now a).1.pending = [] := by
        refine (RemoteWorker.rests_of_runMoves now a _ w w.toDo_le).imp_left fun hwaits => ?_
        show (w.run now a).1.isWaiting later
        change (w.run now a).1.isWaiting now at hwaits
        unfold RemoteWorker.isWaiting at hwaits ⊢
        cases hwake : (w.run now a).1.wakeAt with
        | none =>
            rw [hwake] at hwaits
            cases hwaits
        | some due => exact decide_eq_true (hlater due hwake)
      have hstays := RemoteWorker.run_of_rests a' hrests
      simp only [Worker.run, hstays]

/-! ### Teams -/

namespace Team

variable {t : Team} {now later : Time}

/-- Whether nothing of a team goes on by itself up to a moment. -/
structure RestsAt (t : Team) (later : Time) : Prop where
  lanes : ∀ lane ∈ t.scheduler.lanes, t.scheduler.isStill later lane
  batches : ∀ b ∈ t.scheduler.batches, t.scheduler.isWaiting b
  worker : ∀ network device, t.playback.worker.run later network device =
    (t.playback.worker, device, [])
  random : ∀ time interval, ¬t.RandomComes later time interval

theorem RestsAt.fire (h : t.RestsAt later) : t.fire later = (t, []) := by
  have htick := Scheduler.tick_eq_self t.scheduler later t.playback.worker.isAccepting h.lanes
  have hplayback : t.playback.fire later = (t.playback, []) := by
    rw [Playback.fire]
    change t.playback.scheduler.tick later t.playback.worker.isAccepting = _ at htick
    rw [htick]
    rfl
  rw [Team.fire, hplayback]
  rfl

theorem RestsAt.work (h : t.RestsAt later) (network : Attempt) (device : Device) :
    t.work later network device = (t, device, []) := by
  rw [Team.work, Playback.work, h.worker]
  rfl

theorem RestsAt.retire (h : t.RestsAt later) : t.playback.retire = (t.playback, []) := by
  have hretire := Scheduler.retire_eq_self t.scheduler h.batches
  rw [Playback.retire]
  change t.playback.scheduler.retire = _ at hretire
  rw [hretire]
  rfl

/-- A team at rest stays as it is. -/
theorem RestsAt.settle (h : t.RestsAt later) (network : Attempt) (device : Device) :
    t.settle later network device = (t, device, [], []) := by
  rw [Team.settle, h.fire]
  simp only [tickRandom_of_not_comes h.random, h.fire, h.work, h.retire]
  rfl

/-- Before whatever comes first there is nothing else. -/
theorem lt_of_lt_min? {times : List Time} (h : ∀ first, times.min? = some first → later < first)
    {time : Time} (hmem : time ∈ times) : later < time := by
  cases hfirst : times.min? with
  | none =>
      rw [List.min?_eq_none_iff] at hfirst
      exact absurd (hfirst ▸ hmem) List.not_mem_nil
  | some first =>
      exact Int.lt_of_lt_of_le (h first hfirst) ((List.min?_eq_some_iff.mp hfirst).2 time hmem)

/-- A settled team rests until the moment at which it says that it goes on. -/
theorem restsAt_settle (network : Attempt) (device : Device)
    (hlater : ∀ due, (t.settle now network device).1.nextDue? = some due → later < due) :
    (t.settle now network device).1.RestsAt later := by
  -- The second handing over is what settles the lanes: what was played at random is in them by then.
  let played := ((t.fire now).1.tickRandom now).1
  have hplayback : ∀ due, (t.settle now network device).1.playback.nextDue? = some due → later < due :=
    fun due hdue => lt_of_lt_min? hlater (List.mem_append_left _ (Option.mem_toList.mpr hdue))
  have hlanes : ∀ due, ((played.timeline now).settleAt now).nextDue? = some due → later < due :=
    fun due hdue => lt_of_lt_min? hplayback (List.mem_append_left _ (Option.mem_toList.mpr hdue))
  constructor
  · exact fun lane hlane => Timeline.isStill_settleAt now later (played.timeline now) hlanes hlane
  · exact fun b hb => (List.mem_filter.mp hb).2
  · intro network' device'
    exact Worker.run_run (played.fire now).1.playback.worker now later network network' device device'
      fun due hdue => lt_of_lt_min? hplayback (List.mem_append_right _ (Option.mem_toList.mpr hdue))
  · intro time interval hcomes
    have hlate := lt_of_lt_min? hlater (List.mem_append_right _ (Option.mem_toList.mpr hcomes.at_time))
    exact absurd hcomes.due (Int.not_le.mpr hlate)

end Team

end CrowdPad
