import CrowdPad.Proofs.Dispatch.Local
import CrowdPad.Proofs.Hub.Alike
import CrowdPad.Proofs.Scheduler.Pair

/-! What a team with a device has under way, told from the beginning. A ledger keeps what the worker was
handed and what it has worked off. Of the two edges of a request both are handed over or planned, or none;
once the press is handed over, its release is still in its lane only as long as it is not due, and behind that
it is queued or has been worked off. -/

namespace CrowdPad

/-! ### The worker beside its device -/

theorem Worker.taken_open {w : LocalWorker} (hopen : w.stopped = false) (edges : List Edge) :
    (Worker.here w).taken edges = edges := by
  obtain ⟨stats, hworker⟩ := Worker.handOverAll_open 0 hopen edges
  have hqueue := Worker.queue_handOverAll 0 (.here w) edges
  rw [hworker] at hqueue
  exact (List.append_cancel_left hqueue).symm

/-- A worker that is stopped takes none. -/
theorem Worker.handOverAll_stopped (now : Time) {w : LocalWorker} (hstopped : w.stopped = true)
    (edges : List Edge) : (Worker.here w).taken edges = [] ∧
      ((Worker.here w).handOverAll now edges).1 = .here w := by
  have hrefused : ∀ e, (Worker.here w).handOver e = .error (.workerStopped w.target.describe) := by
    intro e
    simp [Worker.handOver, LocalWorker.handOver, hstopped, Except.map]
  induction edges with
  | nil => exact ⟨rfl, rfl⟩
  | cons e rest ih =>
      rw [Worker.taken, Worker.handOverAll, hrefused]
      exact ih

namespace LocalWorker

variable {w : LocalWorker} {now : Time} {device : Device}

/-- A worker that applies an edge has the others left. -/
theorem workOne_worker (w : LocalWorker) (now : Time) (device : Device) :
    (w.workOne now device).1.queue = w.queue.tail ∧
    (w.workOne now device).1.stopped = w.stopped ∧ (w.workOne now device).1.target = w.target := by
  rw [workOne]
  cases hqueue : w.queue with
  | nil => exact ⟨hqueue, rfl, rfl⟩
  | cons e rest => exact ⟨rfl, rfl, rfl⟩

theorem workOne_failing : (w.workOne now device).2.1.failing = device.failing := by
  rw [workOne]
  cases w.queue with
  | nil => rfl
  | cons e rest => exact applyAll_failing ..

theorem workOne_inputs : (w.workOne now device).2.1.inputs = device.inputs ++
    (w.queue.head?.toList.filter fun e => !device.failing.contains e.key).map
      (input now w.target.player) := by
  rw [workOne]
  cases w.queue with
  | nil => exact (List.append_nil _).symm
  | cons e rest => exact applyAll_inputs ..

end LocalWorker

/-! ### Ledgers -/

/-- What is under way, with what the worker was handed and what it has worked off, and when. -/
@[ext]
structure Ledger where
  playback : Playback
  device : Device
  handed : List Edge := []
  worked : List (Time × Edge) := []

namespace Ledger

def scheduler (l : Ledger) : Scheduler := l.playback.scheduler

def queue (l : Ledger) : List Edge := l.playback.worker.queue

/-- The edges that wait in lanes. -/
def waiting (l : Ledger) : List Edge := l.scheduler.lanes.flatMap Lane.edges

/-- What the device has of what was worked off. -/
def applied (l : Ledger) : List (Time × Edge) :=
  l.worked.filter fun p => !l.device.failing.contains p.2.key

def withScheduler (l : Ledger) (scheduler : Scheduler) : Ledger :=
  { l with playback := { l.playback with scheduler } }

def fire (now : Time) (l : Ledger) : Ledger :=
  { l with
    playback := (l.playback.fire now).1
    handed := l.handed ++
      l.playback.worker.taken (l.scheduler.tick now l.playback.worker.isAccepting).2 }

def work (now : Time) (network : Attempt) (l : Ledger) : Ledger :=
  let (playback, device, _) := l.playback.work now network l.device
  { l with playback, device, worked := l.worked ++ l.queue.map (now, ·) }

/-- The worker applies the first edge that is queued. -/
def apply (now : Time) (l : Ledger) : Ledger :=
  match l.playback.worker with
  | .here w =>
    let (first, device, _) := w.workOne now l.device
    { l with
      playback := { l.playback with worker := .here first }
      device
      worked := l.worked ++ w.queue.head?.toList.map (now, ·) }
  | .remote _ => l

def retire (l : Ledger) : Ledger := l.withScheduler l.scheduler.retire.1

/-- The edges of a pair that are handed over or planned. -/
def course (l : Ledger) (pair : Nat) : List Edge :=
  l.handed.filter (Edge.inPair pair) ++ l.scheduler.plannedWhere (Edge.inPair pair)

/-- A request that was scheduled, and what has become of it: of its edges both leave their lane, or none
does. -/
structure Bears (press release : Edge) (l : Ledger) : Prop where
  twins : press.Twins release
  sameKey : release.key = press.key
  split : ∃ gone, gone ++ l.scheduler.edgesWhere (Edge.inPair press.pair) = [press, release] ∧
    (l.handed.filter (Edge.inPair press.pair)).Sublist gone
  whole : l.course press.pair = [press, release] ∨ l.course press.pair = []

/-- What holds of a ledger at a moment, as long as the worker is not stopped. -/
structure Sound (target : Target) (now : Time) (l : Ledger) : Prop where
  orderly : l.scheduler.Orderly
  here : ∃ w, l.playback.worker = .here w ∧ w.stopped = false ∧ w.target = target
  split : l.handed = l.worked.map (·.2) ++ l.queue
  inputs : l.device.inputs = l.applied.map fun p => LocalWorker.input p.1 target.player p.2
  numbered : ∀ e ∈ l.handed, e.pair < l.scheduler.nextPair
  borne : ∀ pair < l.scheduler.nextPair, ∃ press release, press.pair = pair ∧ l.Bears press release
  /-- No edge of a request that was begun is overdue in its lane. -/
  late : ∀ e ∈ l.waiting, (∃ p ∈ l.handed, p.pair = e.pair) → now ≤ e.fireAt

variable {target : Target} {now : Time} {l : Ledger} {press release : Edge}

theorem mem_waiting {e : Edge} : e ∈ l.waiting ↔ ∃ lane ∈ l.scheduler.lanes, e ∈ lane.edges :=
  List.mem_flatMap

theorem sound_new (target : Target) (now : Time) {device : Device} (hfresh : device.inputs = []) :
    Sound target now { playback := { worker := .here { target } }, device } where
  orderly := Scheduler.orderly_empty
  here := ⟨_, rfl, rfl, rfl⟩
  split := rfl
  inputs := hfresh
  numbered _ he := absurd he List.not_mem_nil
  borne pair hpair := absurd hpair (Nat.not_lt_zero pair)
  late _ he := absurd he List.not_mem_nil

/-- Where what has become of each request goes on, all requests are borne on. -/
theorem Sound.borne_of (h : l.Sound target now) {l' : Ledger}
    (hsame : l'.scheduler.nextPair = l.scheduler.nextPair)
    (hbears : ∀ press release, l.Bears press release → l'.Bears press release) :
    ∀ pair < l'.scheduler.nextPair, ∃ press release, press.pair = pair ∧ l'.Bears press release := by
  rw [hsame]
  intro pair hpair
  obtain ⟨press, release, hnumber, hborne⟩ := h.borne pair hpair
  exact ⟨press, release, hnumber, hbears press release hborne⟩

/-! ### Handing over -/

theorem scheduler_fire (now : Time) (l : Ledger) : (l.fire now).scheduler =
    (l.scheduler.tick now l.playback.worker.isAccepting).1 := rfl

/-- What waits behind a handing over has waited before. -/
theorem waiting_fire : (l.fire now).waiting ⊆ l.waiting := by
  intro e he
  obtain ⟨lane, hlane, hmem⟩ := mem_waiting.mp he
  obtain ⟨before, hbefore, rfl⟩ := Scheduler.mem_tick_lanes _ now _ hlane
  exact mem_waiting.mpr ⟨before, hbefore, (Scheduler.laneAfter_suffix _ now before).subset hmem⟩

/-- What leaves the lanes has waited in them. -/
theorem waiting_of_mem_tick {accepting : Bool} {e : Edge}
    (he : e ∈ (l.scheduler.tick now accepting).2) : e ∈ l.waiting :=
  mem_waiting.mpr (Scheduler.mem_lane_of_mem_tick now _ he)

/-- What waits behind a handing over is not due. -/
theorem lt_of_mem_waiting_fire (h : l.scheduler.Orderly) {e : Edge} (he : e ∈ (l.fire now).waiting) :
    now < e.fireAt := by
  obtain ⟨lane, hlane, hmem⟩ := mem_waiting.mp he
  exact h.lt_of_mem_tick now _ hlane hmem

section Open

variable {w : LocalWorker} (hworker : l.playback.worker = .here w) (hopen : w.stopped = false)

include hworker hopen

theorem fire_of_open (now : Time) : ∃ stats,
    let edges := (l.scheduler.tick now l.playback.worker.isAccepting).2
    (l.fire now).handed = l.handed ++ edges ∧
      (l.fire now).playback.worker = .here { w with queue := w.queue ++ edges, stats } := by
  have htaken := Worker.taken_open hopen (l.scheduler.tick now l.playback.worker.isAccepting).2
  obtain ⟨stats, hhanded⟩ := Worker.handOverAll_open now hopen
    (l.scheduler.tick now l.playback.worker.isAccepting).2
  rw [← hworker] at htaken hhanded
  refine ⟨stats, ?_, hhanded⟩
  rw [fire, htaken]

theorem queue_fire_of_open (now : Time) : (l.fire now).queue =
    l.queue ++ (l.scheduler.tick now l.playback.worker.isAccepting).2 := by
  obtain ⟨stats, -, hfired⟩ := fire_of_open hworker hopen now
  rw [queue, hfired, queue, hworker]
  rfl

end Open

/-- A handing over moves the front of the course of a request. -/
theorem Bears.fire (hbears : l.Bears press release) (h : l.scheduler.Orderly)
    (hhanded : (l.fire now).handed =
      l.handed ++ (l.scheduler.tick now l.playback.worker.isAccepting).2) :
    (l.fire now).Bears press release where
  twins := hbears.twins
  sameKey := hbears.sameKey
  split := by
    obtain ⟨gone, hboth, hgone⟩ := hbears.split
    obtain ⟨front, hfront, hleft⟩ := h.tick_split_edgesWhere (Scheduler.kindred_inPair press.pair) now
      l.playback.worker.isAccepting
    refine ⟨gone ++ front, ?_, ?_⟩
    · rw [List.append_assoc, scheduler_fire, hfront, hboth]
    · rw [hhanded, List.filter_append]
      exact hgone.append hleft
  whole := by
    have hcourse : (l.fire now).course press.pair = l.course press.pair := by
      rw [course, hhanded, List.filter_append, List.append_assoc, scheduler_fire,
        h.tick_append_plannedWhere (Scheduler.kindred_inPair press.pair), course]
    rw [hcourse]
    exact hbears.whole

theorem Sound.fire (h : l.Sound target now) : (l.fire now).Sound target now := by
  obtain ⟨w, hworker, hopen, htarget⟩ := h.here
  obtain ⟨stats, hhanded, hworker'⟩ := fire_of_open hworker hopen now
  have hqueue := queue_fire_of_open hworker hopen now
  refine ⟨h.orderly.tick now _, ⟨_, hworker', hopen, htarget⟩, ?_, h.inputs, ?_, ?_, ?_⟩
  · rw [hhanded, hqueue, h.split, List.append_assoc]
    rfl
  · rw [hhanded, List.forall_mem_append]
    refine ⟨h.numbered, fun e he => ?_⟩
    obtain ⟨lane, hlane, hmem⟩ := Scheduler.mem_lane_of_mem_tick now _ he
    exact (h.orderly.owned lane hlane e hmem).2
  · exact h.borne_of rfl fun press release hbears => hbears.fire h.orderly hhanded
  · exact fun e he _ => Int.le_of_lt (lt_of_mem_waiting_fire h.orderly he)

/-! ### Working off -/

theorem work_of_here {w : LocalWorker} (hworker : l.playback.worker = .here w) (now : Time)
    (network : Attempt) : l.work now network =
      { l with
        playback := { l.playback with worker := .here (w.run now l.device).1 }
        device := (w.run now l.device).2.1
        worked := l.worked ++ l.queue.map (now, ·) } := by
  rw [work, Playback.work, hworker]
  rfl

/-- Behind the work of a worker beside its device nothing is queued. -/
theorem queue_work {w : LocalWorker} (hworker : l.playback.worker = .here w) (now : Time)
    (network : Attempt) : (l.work now network).queue = [] := by
  rw [work_of_here hworker]
  rfl

section Here

variable {w : LocalWorker} (hworker : l.playback.worker = .here w)

include hworker

theorem apply_of_here (now : Time) : l.apply now =
    { l with
      playback := { l.playback with worker := .here (w.workOne now l.device).1 }
      device := (w.workOne now l.device).2.1
      worked := l.worked ++ w.queue.head?.toList.map (now, ·) } := by
  rw [apply, hworker]

/-- Behind the first edge the others are queued. -/
theorem queue_apply (now : Time) : (l.apply now).queue = l.queue.tail := by
  rw [apply_of_here hworker, queue, queue, hworker]
  exact (LocalWorker.workOne_worker ..).1

/-- The worker leaves alone what it is handed by. -/
theorem apply_apart (now : Time) :
    (l.apply now).scheduler = l.scheduler ∧ (l.apply now).handed = l.handed := by
  rw [apply_of_here hworker]
  exact ⟨rfl, rfl⟩

/-- What the worker has queued it applies edge by edge. -/
theorem work_of_apply {P : Ledger → Prop} (happly : ∀ l, P l → P (l.apply now)) (network : Attempt)
    (h : P l) : P (l.work now network) := by
  induction hqueue : w.queue generalizing l w with
  | nil =>
      have hsame : l.work now network = l := by
        rw [work_of_here hworker, LocalWorker.run_of_nil hqueue, queue, hworker]
        refine Ledger.ext ?_ rfl rfl ?_
        · exact congrArg (fun worker => { l.playback with worker }) hworker.symm
        · show l.worked ++ w.queue.map (now, ·) = l.worked
          rw [hqueue, List.map_nil, List.append_nil]
      rwa [hsame]
  | cons e rest ih =>
      have hfirst := apply_of_here hworker now
      have hrest : (w.workOne now l.device).1.queue = rest := by rw [LocalWorker.workOne, hqueue]
      have hworker' : (l.apply now).playback.worker = .here (w.workOne now l.device).1 := by rw [hfirst]
      have hsame : l.work now network = (l.apply now).work now network := by
        rw [work_of_here hworker, work_of_here hworker', hfirst, LocalWorker.run_of_cons hqueue]
        refine Ledger.ext rfl rfl rfl ?_
        show l.worked ++ l.playback.worker.queue.map (now, ·) =
          l.worked ++ w.queue.head?.toList.map (now, ·) ++
            (w.workOne now l.device).1.queue.map (now, ·)
        rw [hworker, hrest, List.append_assoc]
        show l.worked ++ w.queue.map (now, ·) = _
        rw [hqueue]
        rfl
      rw [hsame]
      exact ih hworker' (happly l h) hrest

end Here

theorem Sound.apply (h : l.Sound target now) : (l.apply now).Sound target now := by
  obtain ⟨w, hworker, hopen, htarget⟩ := h.here
  obtain ⟨hrest, hstopped', htarget'⟩ := w.workOne_worker now l.device
  have hsplit := h.split
  rw [queue, hworker] at hsplit
  rw [apply_of_here hworker]
  refine ⟨h.orderly, ⟨_, rfl, hstopped'.trans hopen, htarget'.trans htarget⟩, ?_, ?_, h.numbered, ?_, h.late⟩
  · rw [List.map_append, List.map_map, List.append_assoc]
    refine hsplit.trans (congrArg (l.worked.map (·.2) ++ ·) ?_)
    show w.queue = w.queue.head?.toList.map id ++ (w.workOne now l.device).1.queue
    rw [hrest, List.map_id]
    cases w.queue <;> rfl
  · rw [applied, LocalWorker.workOne_inputs, LocalWorker.workOne_failing, List.filter_append,
      List.map_append, ← applied, ← h.inputs, htarget, List.filter_map, List.map_map]
    rfl
  · exact h.borne_of rfl fun _ _ hbears => ⟨hbears.twins, hbears.sameKey, hbears.split, hbears.whole⟩

theorem Sound.work (h : l.Sound target now) (network : Attempt) :
    (l.work now network).Sound target now := by
  obtain ⟨w, hworker, -⟩ := h.here
  exact work_of_apply hworker (fun _ h => h.apply) network h

/-! ### What else happens to a scheduler -/

theorem Bears.retire (hbears : l.Bears press release) : l.retire.Bears press release where
  twins := hbears.twins
  sameKey := hbears.sameKey
  split := hbears.split
  whole := by
    have hcourse : l.retire.course press.pair = l.course press.pair :=
      congrArg (l.handed.filter (Edge.inPair press.pair) ++ ·) (Scheduler.plannedWhere_retire _ _)
    rw [hcourse]
    exact hbears.whole

theorem Sound.retire (h : l.Sound target now) : l.retire.Sound target now where
  orderly := h.orderly.retire
  here := h.here
  split := h.split
  inputs := h.inputs
  numbered := h.numbered
  borne := h.borne_of rfl fun _ _ hbears => hbears.retire
  late := h.late

section Schedule

variable (requests : List Request) (reference : Time)

theorem Bears.schedule (hbears : l.Bears press release) (hpair : press.pair < l.scheduler.nextPair) :
    (l.withScheduler (l.scheduler.schedule requests reference).1).Bears press release := by
  have hother : ∀ e ∈ Scheduler.batchEdges l.scheduler.nextBatch reference l.scheduler.nextPair requests,
      ¬e.inPair press.pair := by
    intro e he hpair'
    have hsame : e.pair = press.pair := beq_iff_eq.mp hpair'
    have hnew := (Scheduler.of_mem_batchEdges he).2.1
    omega
  refine ⟨hbears.twins, hbears.sameKey, ?_, ?_⟩
  · have hedges := Scheduler.edgesWhere_schedule l.scheduler requests reference hother
    obtain ⟨gone, hboth, hgone⟩ := hbears.split
    exact ⟨gone, (congrArg (gone ++ ·) hedges).trans hboth, hgone⟩
  · have hplanned := Scheduler.plannedWhere_schedule l.scheduler requests reference hother
    have hcourse : (l.withScheduler (l.scheduler.schedule requests reference).1).course press.pair =
        l.course press.pair := congrArg (l.handed.filter (Edge.inPair press.pair) ++ ·) hplanned
    rw [hcourse]
    exact hbears.whole

variable {requests}

theorem Sound.bears_schedule (h : l.Sound target now) {i : Nat} (hi : i < requests.length) :
    (l.withScheduler (l.scheduler.schedule requests reference).1).Bears
      (requests[i].pressEdge l.scheduler.nextBatch (l.scheduler.nextPair + i) reference)
      (requests[i].releaseEdge l.scheduler.nextBatch (l.scheduler.nextPair + i) reference) := by
  have hnone : l.handed.filter (Edge.inPair (l.scheduler.nextPair + i)) = [] := by
    rw [List.filter_eq_nil_iff]
    intro e he hpair
    have hsame : e.pair = l.scheduler.nextPair + i := beq_iff_eq.mp hpair
    have hold := h.numbered e he
    omega
  refine ⟨requests[i].twins _ _ reference, rfl, ⟨[], ?_, ?_⟩, .inl ?_⟩
  · exact h.orderly.edgesWhere_schedule_inPair requests reference hi
  · exact hnone ▸ List.Sublist.refl []
  · refine (congrArg (· ++ _) hnone).trans ?_
    exact h.orderly.plannedWhere_schedule_inPair requests reference hi

variable (requests)

theorem Sound.schedule (h : l.Sound target now) :
    (l.withScheduler (l.scheduler.schedule requests reference).1).Sound target now where
  orderly := h.orderly.schedule requests reference
  here := h.here
  split := h.split
  inputs := h.inputs
  numbered := fun e he => Nat.lt_add_right _ (h.numbered e he)
  borne := by
    intro pair hpair
    by_cases hold : pair < l.scheduler.nextPair
    · obtain ⟨press, release, rfl, hbears⟩ := h.borne pair hold
      exact ⟨press, release, rfl, hbears.schedule requests reference hold⟩
    · obtain ⟨i, rfl⟩ := Nat.exists_eq_add_of_le (Nat.le_of_not_lt hold)
      have hi : i < requests.length := Nat.lt_of_add_lt_add_left hpair
      exact ⟨_, _, rfl, h.bears_schedule reference hi⟩
  late := by
    rintro e he ⟨p, hp, hpair⟩
    obtain ⟨lane, hlane, hmem⟩ := mem_waiting.mp he
    rcases List.mem_append.mp hlane with hold | hnew
    · exact h.late e (mem_waiting.mpr ⟨lane, hold, hmem⟩) ⟨p, hp, hpair⟩
    · have hlow := (Scheduler.of_mem_batchEdges ((Scheduler.mem_newLanes hnew).2.2.2.2 e hmem)).2.1
      have hhigh := h.numbered p hp
      omega

end Schedule

/-- A cancellation takes away a request whose press is in its lane, and no other. -/
theorem Bears.cancelIf (hbears : l.Bears press release) (h : l.scheduler.Orderly) (which : Nat → Bool) :
    (l.withScheduler (l.scheduler.cancelIf which)).Bears press release := by
  refine ⟨hbears.twins, hbears.sameKey, hbears.split, ?_⟩
  obtain ⟨gone, hboth, hgone⟩ := hbears.split
  have hsuffix : l.scheduler.edgesWhere (Edge.inPair press.pair) <:+ [press, release] := ⟨gone, hboth⟩
  have hsame (heq : (l.scheduler.cancelIf which).plannedWhere (Edge.inPair press.pair) =
      l.scheduler.plannedWhere (Edge.inPair press.pair)) :
      (l.withScheduler (l.scheduler.cancelIf which)).course press.pair = l.course press.pair :=
    congrArg (l.handed.filter (Edge.inPair press.pair) ++ ·) heq
  by_cases hwaiting : l.scheduler.edgesWhere (Edge.inPair press.pair) = [press, release]
  · by_cases hcovers : which press.batch
    · right
      have hnone : l.handed.filter (Edge.inPair press.pair) = [] := by
        rw [hwaiting, List.append_left_eq_self] at hboth
        rw [hboth] at hgone
        exact List.sublist_nil.mp hgone
      exact List.append_eq_nil_iff.mpr
        ⟨hnone, h.plannedWhere_cancelIf_of_waiting hbears.twins hcovers hwaiting⟩
    · rw [hsame]
      · exact hbears.whole
      · refine Scheduler.plannedWhere_cancelIf_of_not l.scheduler fun lane hlane => ?_
        rw [h.bearer_batch hbears.twins hsuffix hlane]
        exact eq_false_of_ne_true hcovers
  · rw [hsame (h.plannedWhere_cancelIf_of_begun hbears.twins which hsuffix hwaiting)]
    exact hbears.whole

theorem Sound.cancelIf (h : l.Sound target now) (which : Nat → Bool) :
    (l.withScheduler (l.scheduler.cancelIf which)).Sound target now where
  orderly := h.orderly.cancelIf which
  here := h.here
  split := h.split
  inputs := h.inputs
  numbered := h.numbered
  borne := h.borne_of rfl fun _ _ hbears => hbears.cancelIf h.orderly which
  late := h.late

/-- Time passes over what is not due. -/
theorem Sound.later {later : Time} (h : l.Sound target now) (hdue : ∀ e ∈ l.waiting, later ≤ e.fireAt) :
    l.Sound target later where
  orderly := h.orderly
  here := h.here
  split := h.split
  inputs := h.inputs
  numbered := h.numbered
  borne := h.borne
  late := fun e he _ => hdue e he

/-! ### What everything keeps -/

/-- Whether whatever can happen to a ledger keeps something that holds of it at a moment. Time passes only over
what is not due. -/
structure Keeps (P : Time → Ledger → Prop) : Prop where
  orderly {now : Time} {l : Ledger} : P now l → l.scheduler.Orderly
  fire {now : Time} {l : Ledger} : P now l → P now (l.fire now)
  work {now : Time} {l : Ledger} (network : Attempt) : P now l → P now (l.work now network)
  retire {now : Time} {l : Ledger} : P now l → P now l.retire
  schedule {now : Time} {l : Ledger} (requests : List Request) (reference : Time) :
    P now l → P now (l.withScheduler (l.scheduler.schedule requests reference).1)
  cancelIf {now : Time} {l : Ledger} (which : Nat → Bool) :
    P now l → P now (l.withScheduler (l.scheduler.cancelIf which))
  later {now later : Time} {l : Ledger} :
    P now l → (∀ e ∈ l.waiting, later ≤ e.fireAt) → P later l

theorem sound_keeps : Keeps (Sound target) where
  orderly := Sound.orderly
  fire h := h.fire
  work network h := h.work network
  retire h := h.retire
  schedule requests reference h := h.schedule requests reference
  cancelIf which h := h.cancelIf which
  later h := h.later

end Ledger

end CrowdPad
