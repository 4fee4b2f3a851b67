import CrowdPad.Playback
import CrowdPad.Proofs.Scheduler.Held

/-! Keys on the device of this process. The worker applies edges in the order in which they were
handed over, so that what the device did and what is still queued are, for every key, the presses and
releases that left the scheduler. A key that the device refuses sees neither. -/

namespace CrowdPad

/-! ### The worker -/

namespace LocalWorker

/-- An edge as the device of a worker takes it. -/
def input (now : Time) (player : Nat) (e : Edge) : Input :=
  { time := now, player, key := e.key, transition := e.transition }

theorem applyAll_failing (now : Time) (player : Nat) (device : Device) (stats : DispatchStats)
    (edges : List Edge) :
    (applyAll now player device stats edges).1.failing = device.failing := by
  induction edges generalizing device stats with
  | nil => rfl
  | cons e rest ih =>
      rw [applyAll, Device.apply]
      by_cases hfailing : device.failing.contains e.key
      · simp only [hfailing, if_true]
        exact ih device _
      · simp only [hfailing, Bool.false_eq_true, if_false]
        exact ih _ _

/-- The device takes the edges for the keys that it has, in their order. -/
theorem applyAll_inputs (now : Time) (player : Nat) (device : Device) (stats : DispatchStats)
    (edges : List Edge) :
    (applyAll now player device stats edges).1.inputs = device.inputs ++
      (edges.filter fun e => !device.failing.contains e.key).map (input now player) := by
  induction edges generalizing device stats with
  | nil => simp [applyAll]
  | cons e rest ih =>
      rw [applyAll, Device.apply]
      by_cases hfailing : device.failing.contains e.key
      · rw [List.filter_cons_of_neg (by simpa using hfailing)]
        simp only [hfailing, if_true]
        exact ih device _
      · rw [List.filter_cons_of_pos (by simpa using hfailing)]
        simp only [hfailing, Bool.false_eq_true, if_false]
        rw [ih, List.map_cons, List.append_assoc]
        rfl

end LocalWorker

/-- A worker that is not stopped takes all edges, in their order. -/
theorem Worker.handOverAll_open (now : Time) {w : LocalWorker} (hopen : w.stopped = false)
    (edges : List Edge) : ∃ stats, ((Worker.here w).handOverAll now edges).1 =
      .here { w with queue := w.queue ++ edges, stats } := by
  induction edges generalizing w with
  | nil => exact ⟨w.stats, by rw [List.append_nil]; rfl⟩
  | cons e rest ih =>
      let next : LocalWorker := { w with
        queue := w.queue ++ [e], stats := { w.stats with queued := w.stats.queued + 1 } }
      have htaken : (Worker.here w).handOver e = .ok (.here next) := by
        simp [next, Worker.handOver, LocalWorker.handOver, hopen, Except.map]
      obtain ⟨stats, hworker⟩ := ih (w := next) hopen
      refine ⟨stats, ?_⟩
      rw [Worker.handOverAll, htaken, ← List.singleton_append (l := rest), ← List.append_assoc]
      exact hworker

theorem Worker.handOverAll_here (now : Time) {w : LocalWorker} (hw : w.stopped = false)
    (edges : List Edge) : ∃ w' : LocalWorker, ((Worker.here w).handOverAll now edges).1 = .here w' ∧
      w'.stopped = false ∧ w'.queue = w.queue ++ edges := by
  obtain ⟨stats, hworker⟩ := handOverAll_open now hw edges
  exact ⟨_, hworker, hw, rfl⟩

/-! ### Playback -/

/-- How a key went down and up in what a device did. -/
def Input.transitionsOf (inputs : List Input) (key : String) : List Transition :=
  (inputs.filter fun input => input.key == key).map (·.transition)

theorem Input.transitionsOf_eq_nil {inputs : List Input} {key : String}
    (h : ∀ input ∈ inputs, input.key ≠ key) : transitionsOf inputs key = [] := by
  rw [transitionsOf, List.filter_eq_nil_iff.mpr, List.map_nil]
  intro input hinput hof
  exact h input hinput (beq_iff_eq.mp hof)

/-- What is queued for a key. -/
def LocalWorker.due (w : LocalWorker) (key : String) : List Transition :=
  (w.queue.filter fun e => e.key == key).map (·.transition)

namespace LocalWorker

variable {device : Device}

theorem run_failing (w : LocalWorker) (now : Time) :
    (w.run now device).2.1.failing = device.failing :=
  applyAll_failing ..

theorem run_inputs (w : LocalWorker) (now : Time) : (w.run now device).2.1.inputs = device.inputs ++
    (w.queue.filter fun e => !device.failing.contains e.key).map (input now w.target.player) :=
  applyAll_inputs ..

/-- What was queued for a key that the device has, it does. -/
theorem transitionsOf_run (w : LocalWorker) (now : Time) {key : String}
    (hkey : ¬device.failing.contains key) :
    Input.transitionsOf (w.run now device).2.1.inputs key =
      Input.transitionsOf device.inputs key ++ w.due key := by
  rw [run_inputs, Input.transitionsOf, List.filter_append, List.map_append, ← Input.transitionsOf,
    due, List.filter_map, List.map_map, List.filter_filter]
  congr 2
  refine List.filter_congr fun e _ => ?_
  by_cases he : e.key = key
  · subst he
    simpa [input] using hkey
  · simp [input, he]

end LocalWorker

namespace Playback

/-- Whether the books of a playback and its device agree. -/
structure Steady (device : Device) (p : Playback) : Prop where
  orderly : p.scheduler.Orderly
  paired : p.scheduler.Paired
  refused : ∀ input ∈ device.inputs, ¬device.failing.contains input.key
  held : ∃ w, p.worker = .here w ∧ w.stopped = false ∧
    ∀ key, ¬device.failing.contains key →
      heldAfter? 0 (Input.transitionsOf device.inputs key ++ w.due key) =
        some (p.scheduler.heldWhere fun e => e.key == key)

variable {device : Device} {p : Playback}

theorem coarse_key (key : String) : Scheduler.Coarse fun e => e.key == key := by
  intro e e' _ hkey
  show (e.key == key) = (e'.key == key)
  rw [hkey]

theorem steady_new (target : Target) (hfresh : device.inputs = []) :
    ({ worker := .here { target } } : Playback).Steady device where
  orderly := Scheduler.orderly_empty
  paired := Scheduler.paired_empty
  refused := by
    rw [hfresh]
    exact fun _ h => absurd h List.not_mem_nil
  held := by
    refine ⟨_, rfl, rfl, fun key _ => ?_⟩
    rw [hfresh]
    rfl

theorem Steady.schedule (h : p.Steady device) (requests : List Request) (reference : Time) :
    ({ p with scheduler := (p.scheduler.schedule requests reference).1 } : Playback).Steady device where
  orderly := h.orderly.schedule requests reference
  paired := h.paired.schedule requests reference
  refused := h.refused
  held := by
    obtain ⟨w, hw, hopen, hheld⟩ := h.held
    refine ⟨w, hw, hopen, fun key hkey => ?_⟩
    rw [Scheduler.heldWhere_schedule]
    exact hheld key hkey

theorem Steady.cancelIf (h : p.Steady device) (which : Nat → Bool) :
    ({ p with scheduler := p.scheduler.cancelIf which } : Playback).Steady device where
  orderly := h.orderly.cancelIf which
  paired := h.paired.cancelIf which
  refused := h.refused
  held := h.held

theorem Steady.retire (h : p.Steady device) : p.retire.1.Steady device where
  orderly := h.orderly.retire
  paired := h.paired.retire
  refused := h.refused
  held := h.held

theorem Steady.fire (h : p.Steady device) (now : Time) : (p.fire now).1.Steady device where
  orderly := h.orderly.tick now p.worker.isAccepting
  paired := h.paired.tick now p.worker.isAccepting
  refused := h.refused
  held := by
    obtain ⟨w, hw, hopen, hheld⟩ := h.held
    obtain ⟨w', hworker, hopen', hqueue⟩ :=
      Worker.handOverAll_here now hopen (p.scheduler.tick now p.worker.isAccepting).2
    refine ⟨w', ?_, hopen', fun key hkey => ?_⟩
    · rw [← hw] at hworker
      exact hworker
    · rw [LocalWorker.due, hqueue, List.filter_append, List.map_append, ← List.append_assoc,
        heldAfter?_append, ← LocalWorker.due, hheld key hkey, Option.bind_some]
      exact h.paired.tick_held h.orderly (coarse_key key) now p.worker.isAccepting

theorem Steady.work (h : p.Steady device) (now : Time) (network : Attempt) :
    (p.work now network device).1.Steady (p.work now network device).2.1 := by
  obtain ⟨w, hw, hopen, hheld⟩ := h.held
  have hwork : p.work now network device =
      ({ p with worker := .here (w.run now device).1 }, (w.run now device).2.1,
        (w.run now device).2.2) := by
    rw [Playback.work, hw]
    rfl
  rw [hwork]
  refine ⟨h.orderly, h.paired, ?_, _, rfl, hopen, fun key hkey => ?_⟩
  · intro input hinput
    rw [w.run_inputs, List.mem_append] at hinput
    rw [w.run_failing]
    rcases hinput with hold | hnew
    · exact h.refused input hold
    · obtain ⟨e, he, rfl⟩ := List.mem_map.mp hnew
      simpa [LocalWorker.input] using (List.mem_filter.mp he).2
  · rw [w.run_failing] at hkey
    rw [w.transitionsOf_run now hkey]
    show heldAfter? 0 (Input.transitionsOf device.inputs key ++ w.due key ++ []) = _
    rw [List.append_nil]
    exact hheld key hkey

theorem Steady.ne_of_failing (h : p.Steady device) {key : String}
    (hkey : device.failing.contains key) {input : Input} (hinput : input ∈ device.inputs) :
    input.key ≠ key := fun hof => h.refused input hinput (hof ▸ hkey)

/-- No key of the device is released more often than it was pressed. -/
theorem Steady.count_le (h : p.Steady device) (key : String) {front : List Input}
    (hfront : front <+: device.inputs) :
    (Input.transitionsOf front key).count .release ≤
      (Input.transitionsOf front key).count .press := by
  by_cases hkey : device.failing.contains key
  · rw [Input.transitionsOf_eq_nil fun input hinput =>
      h.ne_of_failing hkey (hfront.subset hinput)]
    exact Nat.le_refl 0
  · obtain ⟨w, -, -, hheld⟩ := h.held
    have hpre : Input.transitionsOf front key <+:
        Input.transitionsOf device.inputs key ++ w.due key :=
      ((hfront.filter _).map _).trans (List.prefix_append _ _)
    simpa using count_le_of_heldAfter? (hheld key hkey) hpre

/-- Where no batch is active and nothing is queued, no key of the device is down. -/
theorem Steady.count_eq (h : p.Steady device) (hidle : p.scheduler.batches = [])
    {w : LocalWorker} (hw : p.worker = .here w) (hqueue : w.queue = []) (key : String) :
    (Input.transitionsOf device.inputs key).count .press =
      (Input.transitionsOf device.inputs key).count .release := by
  by_cases hkey : device.failing.contains key
  · rw [Input.transitionsOf_eq_nil fun input hinput => h.ne_of_failing hkey hinput]
    rfl
  · obtain ⟨w', hw', -, hheld⟩ := h.held
    obtain rfl : w = w' := by simpa [hw] using hw'
    have hnone : p.scheduler.bearers (fun e => e.key == key) = [] := by
      rw [Scheduler.bearers, h.orderly.lanes_eq_nil hidle]
      rfl
    have hkeyHeld := hheld key hkey
    rw [LocalWorker.due, hqueue, Scheduler.heldWhere_eq_zero hnone] at hkeyHeld
    simpa using count_of_heldAfter? hkeyHeld

end Playback

end CrowdPad
