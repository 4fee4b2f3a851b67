import CrowdPad.Proofs.Playback

/-! The worker beside its device, one edge at a time. Whichever keys the device refuses, and whenever the
worker is stopped, the edges offered to the device are the first of those that the worker took, in
their order and each once. The counters add up to what it took, and an edge that is refused is put on
record once and holds up none behind it. Several senders may be at work: an edge is counted before it
is sent, and the count is taken back where the edge is not taken. -/

namespace CrowdPad

/-- What a worker beside its device meets. -/
inductive LocalStep where
  /-- An edge is handed over in one go. -/
  | handOver (e : Edge)
  /-- A sender counts an edge as queued, which it sends later. -/
  | count
  /-- A sender sends an edge that is counted. -/
  | send (e : Edge)
  /-- A sender whose edge was not taken takes back its count. -/
  | uncount
  /-- The worker offers its next edge to the device. -/
  | work (now : Time)
  /-- From now on the device refuses these keys. -/
  | refuse (keys : List String)
  | stop
deriving Repr, DecidableEq

/-- Whether a step lets the worker offer its next edge. -/
def LocalStep.isWork : LocalStep → Bool
  | .work _ => true
  | _ => false

/-- An edge as it was offered to a device. -/
structure Offer where
  time : Time
  edge : Edge
  refused : Bool
deriving Repr, DecidableEq

namespace Offer

/-- What is put on record where the edge was refused. -/
def failure (o : Offer) : DispatchFailure :=
  .of o.time o.edge (.device (Device.refusal o.edge.key))

/-- The edge as the device takes it. -/
def input (target : Target) (o : Offer) : Input := LocalWorker.input o.time target.player o.edge

end Offer

namespace LocalWorker

/-- Offers the next edge to a device. -/
def workOne (now : Time) (device : Device) (w : LocalWorker) :
    LocalWorker × Device × List DispatchFailure :=
  match w.queue with
  | [] => (w, device, [])
  | e :: rest =>
    let (device, stats, failures) := applyAll now w.target.player device w.stats [e]
    ({ w with queue := rest, stats }, device, failures)

variable {w : LocalWorker} {e : Edge} {rest : List Edge}

theorem run_of_nil (hqueue : w.queue = []) (now : Time) (device : Device) :
    w.run now device = (w, device, []) := by
  obtain ⟨target, queue, stopped, stats⟩ := w
  cases hqueue
  rfl

theorem applyAll_cons (now : Time) (player : Nat) (device : Device) (stats : DispatchStats)
    (e : Edge) (rest : List Edge) :
    applyAll now player device stats (e :: rest) =
      let (device, stats, first) := applyAll now player device stats [e]
      let (device, stats, more) := applyAll now player device stats rest
      (device, stats, first ++ more) := by
  simp only [applyAll]
  cases device.apply ⟨now, player, e.key, e.transition⟩ <;> rfl

theorem run_of_cons (hqueue : w.queue = e :: rest) (now : Time) (device : Device) :
    w.run now device =
      let (first, device, failures) := w.workOne now device
      let (last, device, more) := first.run now device
      (last, device, failures ++ more) := by
  rw [run, hqueue, applyAll_cons, workOne, hqueue]
  rfl

end LocalWorker

/-- A worker and its device, with the edges that were taken, those that were offered to the device, those
that were queued when the worker was stopped, and what was put on record. -/
structure LocalDelivery where
  worker : LocalWorker
  device : Device
  taken : List Edge := []
  offered : List Offer := []
  lost : List Edge := []
  failures : List DispatchFailure := []
  /-- How many senders have counted an edge and not sent it yet. -/
  counted : Nat := 0
  /-- How many senders still have to take back a count. -/
  turnedAway : Nat := 0

namespace LocalDelivery

/-- A worker that has nothing yet. -/
def start (target : Target) (device : Device) : LocalDelivery := { worker := { target }, device }

/-- How many senders are in the middle of handing over. -/
def underway (d : LocalDelivery) : Nat := d.counted + d.turnedAway

/-- What the worker offers next. -/
def nextOffer? (d : LocalDelivery) (now : Time) : Option Offer :=
  d.worker.queue.head?.map fun e =>
    { time := now, edge := e, refused := d.device.failing.contains e.key }

/-- The worker with another number of edges counted as queued. -/
def withQueued (d : LocalDelivery) (queued : Nat) : LocalWorker :=
  { d.worker with stats := { d.worker.stats with queued } }

def step (d : LocalDelivery) : LocalStep → LocalDelivery
  | .handOver e =>
    match d.worker.handOver e with
    | .ok worker => { d with worker, taken := d.taken ++ [e] }
    | .error _ => d
  | .count =>
    { d with worker := d.withQueued (d.worker.stats.queued + 1), counted := d.counted + 1 }
  | .send e =>
    if d.counted = 0 then d
    else if d.worker.stopped then
      { d with counted := d.counted - 1, turnedAway := d.turnedAway + 1 }
    else
      { d with
        worker := { d.worker with queue := d.worker.queue ++ [e] }
        taken := d.taken ++ [e]
        counted := d.counted - 1 }
  | .uncount =>
    if d.turnedAway = 0 then d
    else
      { d with
        worker := d.withQueued (d.worker.stats.queued - 1), turnedAway := d.turnedAway - 1 }
  | .work now =>
    let (worker, device, failures) := d.worker.workOne now d.device
    { d with
      worker, device
      offered := d.offered ++ (d.nextOffer? now).toList
      failures := d.failures ++ failures }
  | .refuse keys => { d with device := { d.device with failing := keys } }
  | .stop => { d with worker := d.worker.stop, lost := d.worker.queue ++ d.lost }

def run (d : LocalDelivery) (steps : List LocalStep) : LocalDelivery := steps.foldl step d

variable {target : Target} {device : Device} {d : LocalDelivery} {now : Time} {e : Edge}
  {rest : List Edge}

/-! ### What a step changes -/

theorem step_handOver_of_open (hopen : d.worker.stopped = false) (e : Edge) :
    d.step (.handOver e) =
      { d with
        worker :=
          { d.worker with
            queue := d.worker.queue ++ [e]
            stats := { d.worker.stats with queued := d.worker.stats.queued + 1 } }
        taken := d.taken ++ [e] } := by
  simp [step, LocalWorker.handOver, hopen]

theorem step_handOver_of_stopped (hstopped : d.worker.stopped = true) (e : Edge) :
    d.step (.handOver e) = d := by
  simp [step, LocalWorker.handOver, hstopped]

theorem step_work_of_idle (hqueue : d.worker.queue = []) (now : Time) : d.step (.work now) = d := by
  simp [step, LocalWorker.workOne, nextOffer?, hqueue]

section Work

variable (hqueue : d.worker.queue = e :: rest)

include hqueue

theorem step_work_of_refused (hrefused : d.device.failing.contains e.key = true) (now : Time) :
    d.step (.work now) =
      { d with
        worker := { d.worker with queue := rest, stats := LocalWorker.count d.worker.stats false }
        offered := d.offered ++ [{ time := now, edge := e, refused := true }]
        failures := d.failures ++ [.of now e (.device (Device.refusal e.key))] } := by
  simp only [step, LocalWorker.workOne, LocalWorker.applyAll, Device.apply, nextOffer?, hqueue,
    hrefused, if_true, List.head?_cons, Option.map_some, Option.toList_some]

theorem step_work_of_applied (happlied : d.device.failing.contains e.key = false) (now : Time) :
    d.step (.work now) =
      { d with
        worker := { d.worker with queue := rest, stats := LocalWorker.count d.worker.stats true }
        device :=
          { d.device with
            inputs := d.device.inputs ++ [LocalWorker.input now d.worker.target.player e] }
        offered := d.offered ++ [{ time := now, edge := e, refused := false }] } := by
  simp only [step, LocalWorker.workOne, LocalWorker.applyAll, Device.apply, nextOffer?, hqueue,
    happlied, Bool.false_eq_true, if_false, List.head?_cons, Option.map_some, Option.toList_some,
    List.append_nil, LocalWorker.input]

end Work

/-- A call is its parts, one behind the other. -/
theorem run_parts_of_open (hopen : d.worker.stopped = false) (e : Edge) :
    d.run [.count, .send e] = d.step (.handOver e) := by
  rw [step_handOver_of_open hopen]
  simp [run, step, withQueued, hopen]

/-- A sender that is turned away leaves nothing behind. -/
theorem run_parts_of_stopped (hstopped : d.worker.stopped = true) (e : Edge) :
    d.run [.count, .send e, .uncount] = d := by
  obtain ⟨⟨target, queue, stopped, stats⟩, device, taken, offered, lost, failures⟩ := d
  obtain rfl : stopped = true := hstopped
  simp [run, step, withQueued]

/-! ### Accounts -/

/-- Whether every edge that was taken is offered, queued or lost, and the counters, the device and the
record agree with what was offered. -/
structure Accounts (target : Target) (device : Device) (d : LocalDelivery) : Prop where
  sameTarget : d.worker.target = target
  split : d.taken = d.offered.map (·.edge) ++ d.worker.queue ++ d.lost
  lostNone : d.worker.stopped = false → d.lost = []
  queueEmpty : d.worker.stopped = true → d.worker.queue = []
  queued : d.worker.stats.queued = d.worker.queue.length + d.lost.length + d.underway
  delivered : d.worker.stats.delivered = (d.offered.filter (!·.refused)).length
  failed : d.worker.stats.failed = (d.offered.filter (·.refused)).length
  failures : d.failures = (d.offered.filter (·.refused)).map (·.failure)
  inputs : d.device.inputs =
    device.inputs ++ (d.offered.filter (!·.refused)).map (·.input target)

theorem start_accounts (target : Target) (device : Device) :
    (start target device).Accounts target device where
  sameTarget := rfl
  split := rfl
  lostNone := fun _ => rfl
  queueEmpty := fun _ => rfl
  queued := rfl
  delivered := rfl
  failed := rfl
  failures := rfl
  inputs := (List.append_nil _).symm

section Accounts

variable (h : d.Accounts target device)

include h

theorem Accounts.handOver (e : Edge) : (d.step (.handOver e)).Accounts target device := by
  cases hstopped : d.worker.stopped with
  | true => rwa [step_handOver_of_stopped hstopped]
  | false =>
      have hlost := h.lostNone hstopped
      rw [step_handOver_of_open hstopped]
      exact { h with
        split := by simp [h.split, hlost]
        queueEmpty := fun hstop => absurd (hstopped.symm.trans hstop) Bool.false_ne_true
        queued := by
          simp only [h.queued, hlost, underway, List.length_append, List.length_singleton]
          omega }

theorem Accounts.count : (d.step .count).Accounts target device :=
  { h with
    queued := by
      simp only [LocalDelivery.step, withQueued, h.queued, underway]
      omega }

theorem Accounts.send (e : Edge) : (d.step (.send e)).Accounts target device := by
  have hqueued := h.queued
  rw [underway] at hqueued
  rw [LocalDelivery.step]
  split
  · exact h
  · split
    · exact { h with queued := by simp only [underway]; omega }
    · rename_i hopen
      have hlost := h.lostNone (Bool.eq_false_iff.mpr hopen)
      exact { h with
        split := by simp [h.split, hlost]
        queueEmpty := fun hstop => absurd hstop hopen
        queued := by
          simp only [underway, List.length_append, List.length_singleton]
          omega }

theorem Accounts.uncount : (d.step .uncount).Accounts target device := by
  have hqueued := h.queued
  rw [underway] at hqueued
  rw [LocalDelivery.step]
  split
  · exact h
  · exact { h with queued := by simp only [underway, withQueued]; omega }

theorem Accounts.work (now : Time) : (d.step (.work now)).Accounts target device := by
  cases hqueue : d.worker.queue with
  | nil => rwa [step_work_of_idle hqueue]
  | cons e rest =>
      have hsplit := h.split
      have hqueued : d.worker.stats.queued - 1 = rest.length + d.lost.length + d.underway := by
        rw [h.queued, hqueue, List.length_cons]
        omega
      have hopen : d.worker.stopped = true → rest = [] := fun hstopped =>
        (List.cons_ne_nil e rest (hqueue ▸ h.queueEmpty hstopped)).elim
      rw [hqueue] at hsplit
      cases hfailing : d.device.failing.contains e.key with
      | true =>
          rw [step_work_of_refused hqueue hfailing]
          exact { h with
            split := by simp [hsplit]
            queueEmpty := hopen
            queued := hqueued
            delivered := by simp [LocalWorker.count, h.delivered]
            failed := by simp [LocalWorker.count, h.failed]
            failures := by simp [h.failures, Offer.failure]
            inputs := by simp [h.inputs] }
      | false =>
          rw [step_work_of_applied hqueue hfailing]
          exact { h with
            split := by simp [hsplit]
            queueEmpty := hopen
            queued := hqueued
            delivered := by simp [LocalWorker.count, h.delivered]
            failed := by simp [LocalWorker.count, h.failed]
            failures := by simp [h.failures]
            inputs := by simp [h.inputs, Offer.input, h.sameTarget] }

theorem Accounts.stop : (d.step .stop).Accounts target device :=
  { h with
    split := by simp [LocalDelivery.step, LocalWorker.stop, h.split]
    lostNone := fun hopen => absurd hopen.symm Bool.false_ne_true
    queueEmpty := fun _ => rfl
    queued := by simp [LocalDelivery.step, LocalWorker.stop, h.queued, underway] }

theorem Accounts.step (σ : LocalStep) : (d.step σ).Accounts target device := by
  cases σ with
  | handOver e => exact h.handOver e
  | count => exact h.count
  | send e => exact h.send e
  | uncount => exact h.uncount
  | work now => exact h.work now
  | refuse keys => exact { h with }
  | stop => exact h.stop

theorem Accounts.run (steps : List LocalStep) : (d.run steps).Accounts target device :=
  List.foldlRecOn steps LocalDelivery.step h fun _ hd σ _ => hd.step σ

end Accounts

/-! ### Progress -/

theorem stopped_step {σ : LocalStep} (hopen : d.worker.stopped = false) (hσ : σ ≠ .stop) :
    (d.step σ).worker.stopped = false := by
  cases σ with
  | handOver e => rwa [step_handOver_of_open hopen]
  | send e | uncount =>
      rw [step]
      split_ifs <;> exact hopen
  | work now =>
      cases hqueue : d.worker.queue with
      | nil => rwa [step_work_of_idle hqueue]
      | cons e rest => simpa [step, LocalWorker.workOne, hqueue] using hopen
  | count | refuse keys => exact hopen
  | stop => exact absurd rfl hσ

theorem taken_step (d : LocalDelivery) (σ : LocalStep) : d.taken <+: (d.step σ).taken := by
  cases σ with
  | handOver e =>
      cases hstopped : d.worker.stopped with
      | true => exact ⟨[], by rw [step_handOver_of_stopped hstopped, List.append_nil]⟩
      | false =>
          rw [step_handOver_of_open hstopped]
          exact List.prefix_append ..
  | send e =>
      rw [step]
      split_ifs
      · exact List.prefix_refl _
      · exact List.prefix_refl _
      · exact List.prefix_append ..
  | uncount =>
      rw [step]
      split_ifs <;> exact List.prefix_refl _
  | count | work now | refuse keys | stop => exact List.prefix_refl _

theorem taken_run (d : LocalDelivery) (steps : List LocalStep) : d.taken <+: (d.run steps).taken :=
  List.foldlRecOn (motive := fun u : LocalDelivery => d.taken <+: u.taken) steps step
    (List.prefix_refl _) fun u hu σ _ => hu.trans (u.taken_step σ)

/-- Only the worker's own steps take edges off the queue, each of them one and to offer it. -/
theorem offered_step (hopen : d.worker.stopped = false) {σ : LocalStep} (hσ : σ ≠ .stop) :
    (σ.isWork = false → (d.step σ).offered = d.offered ∧
      d.worker.queue.length ≤ (d.step σ).worker.queue.length) ∧
    (σ.isWork → d.worker.queue = [] ∧ d.step σ = d ∨
      (d.step σ).offered.length = d.offered.length + 1 ∧
        (d.step σ).worker.queue.length + 1 = d.worker.queue.length) := by
  cases σ with
  | handOver e =>
      rw [step_handOver_of_open hopen]
      exact ⟨fun _ => ⟨rfl, by simp⟩, nofun⟩
  | send e =>
      refine ⟨fun _ => ?_, nofun⟩
      rw [step]
      split_ifs <;> simp
  | uncount =>
      refine ⟨fun _ => ?_, nofun⟩
      rw [step]
      split_ifs <;> simp [withQueued]
  | count | refuse keys => exact ⟨fun _ => ⟨rfl, Nat.le_refl _⟩, nofun⟩
  | work now =>
      refine ⟨nofun, fun _ => ?_⟩
      cases hqueue : d.worker.queue with
      | nil => exact .inl ⟨rfl, step_work_of_idle hqueue now⟩
      | cons e rest => exact .inr (by simp [step, LocalWorker.workOne, nextOffer?, hqueue])
  | stop => exact absurd rfl hσ

/-- Each time the worker gets to work, one more edge is offered, if there is one. -/
theorem offered_run (hopen : d.worker.stopped = false) {later : List LocalStep}
    (hlater : .stop ∉ later) :
    (d.run later).worker.stopped = false ∧
      d.offered.length + min (later.countP LocalStep.isWork) d.worker.queue.length ≤
        (d.run later).offered.length := by
  induction later generalizing d with
  | nil => exact ⟨hopen, by simp [run]⟩
  | cons σ rest ih =>
      obtain ⟨hσ, hrest⟩ := not_or.mp (mt List.mem_cons.mpr hlater)
      obtain ⟨hstill, hless⟩ := ih (stopped_step hopen (Ne.symm hσ)) hrest
      obtain ⟨hother, hwork⟩ := offered_step hopen (Ne.symm hσ)
      refine ⟨hstill, Nat.le_trans ?_ hless⟩
      cases hkind : σ.isWork with
      | false =>
          obtain ⟨hoffered, hqueue⟩ := hother hkind
          rw [List.countP_cons_of_neg (Bool.eq_false_iff.mp hkind), hoffered]
          omega
      | true =>
          rw [List.countP_cons_of_pos hkind]
          rcases hwork hkind with ⟨hqueue, hsame⟩ | ⟨hoffered, hqueue⟩
          · rw [hsame, hqueue, List.length_nil, Nat.min_zero]
            exact Nat.le_add_right ..
          · omega

/-- What was taken is offered once the worker gets to work often enough, whatever is refused meanwhile
and whatever else is handed over. -/
theorem Accounts.offered_later (h : d.Accounts target device) (hopen : d.worker.stopped = false)
    {later : List LocalStep} (hlater : .stop ∉ later)
    (henough : d.worker.queue.length ≤ later.countP LocalStep.isWork) :
    d.taken <+: (d.run later).offered.map (·.edge) := by
  obtain ⟨hstill, hmany⟩ := offered_run hopen hlater
  have hsplit := (h.run later).split
  rw [(h.run later).lostNone hstill, List.append_nil] at hsplit
  refine List.prefix_of_prefix_length_le (d.taken_run later) ⟨_, hsplit.symm⟩ ?_
  rw [h.split, h.lostNone hopen, List.append_nil, List.length_append, List.length_map,
    List.length_map]
  omega

/-- What the worker does in one go is to offer what is queued, edge by edge. -/
theorem run_works (d : LocalDelivery) (now : Time) :
    let last := d.run (List.replicate d.worker.queue.length (.work now))
    last.worker = (d.worker.run now d.device).1 ∧ last.device = (d.worker.run now d.device).2.1 ∧
      last.failures = d.failures ++ (d.worker.run now d.device).2.2 := by
  generalize hqueue : d.worker.queue = queue
  induction queue generalizing d with
  | nil =>
      rw [LocalWorker.run_of_nil hqueue]
      exact ⟨rfl, rfl, (List.append_nil _).symm⟩
  | cons e rest ih =>
      have hrest : (d.step (.work now)).worker.queue = rest := by
        simp [step, LocalWorker.workOne, hqueue]
      obtain ⟨hworker, hdevice, hfailures⟩ := ih (d.step (.work now)) hrest
      rw [LocalWorker.run_of_cons hqueue, List.length_cons, List.replicate_succ, run,
        List.foldl_cons]
      refine ⟨hworker, hdevice, hfailures.trans ?_⟩
      exact List.append_assoc ..

theorem underway_step {σ : LocalStep} (hσ : σ ≠ .count) (hnone : d.underway = 0) :
    (d.step σ).underway = 0 := by
  obtain ⟨hcounted, hturned⟩ := Nat.add_eq_zero_iff.mp hnone
  cases σ with
  | handOver e =>
      rw [step]
      split <;> exact hnone
  | count => exact absurd rfl hσ
  | send e => rwa [step, if_pos hcounted]
  | uncount => rwa [step, if_pos hturned]
  | work now | refuse keys | stop => exact hnone

theorem underway_run {steps : List LocalStep} (hwhole : .count ∉ steps) (hnone : d.underway = 0) :
    (d.run steps).underway = 0 :=
  List.foldlRecOn (motive := fun u : LocalDelivery => u.underway = 0) steps step hnone
    fun _ hu _ hσ => underway_step (fun heq => hwhole (heq ▸ hσ)) hu

/-- **Delivery beside the device.** Whatever is handed over, refused and stopped, the edges offered to the
device are the first of those that were taken, in their order and each once. The taken edges are
queued, applied or refused, and each refused one is on record once, in the same order; senders in the
middle of a call only count as queued what they will send or take back. What is queued is offered as
the worker gets to work, whatever the device refuses meanwhile. A call to a stopped worker fails, and
leaves everything as it was, also where it is made in parts. What the worker does in one go is such a
run. -/
theorem offered_in_order (target : Target) (device : Device) (steps : List LocalStep) :
    let d := (start target device).run steps
    d.offered.map (·.edge) <+: d.taken ∧
    (d.worker.stopped = false → d.taken = d.offered.map (·.edge) ++ d.worker.queue) ∧
    d.taken.length + d.underway =
      d.worker.stats.queued + d.worker.stats.delivered + d.worker.stats.failed ∧
    (.count ∉ steps → d.underway = 0) ∧ d.worker.queue.length + d.underway ≤ d.worker.stats.queued ∧
    d.device.inputs = device.inputs ++ (d.offered.filter (!·.refused)).map (·.input target) ∧
    d.worker.stats.delivered = (d.offered.filter (!·.refused)).length ∧
    d.failures = (d.offered.filter (·.refused)).map (·.failure) ∧
    d.worker.stats.failed = d.failures.length ∧
    (∀ later, d.worker.stopped = false → .stop ∉ later →
      d.worker.queue.length ≤ later.countP LocalStep.isWork →
        d.taken <+: (d.run later).offered.map (·.edge)) ∧
    (∀ e error, d.worker.handOver e = .error error ↔
      d.worker.stopped ∧ error = .workerStopped target.describe) ∧
    (∀ e, d.worker.stopped →
      d.step (.handOver e) = d ∧ d.run [.count, .send e, .uncount] = d) ∧
    (∀ e, d.worker.stopped = false → d.run [.count, .send e] = d.step (.handOver e)) ∧
    ∀ now, let last := d.run (List.replicate d.worker.queue.length (.work now))
      last.worker = (d.worker.run now d.device).1 ∧ last.device = (d.worker.run now d.device).2.1 ∧
        last.failures = d.failures ++ (d.worker.run now d.device).2.2 := by
  intro d
  have h : d.Accounts target device := (start_accounts target device).run steps
  refine ⟨?_, fun hopen => ?_, ?_, fun hwhole => underway_run hwhole rfl, ?_, h.inputs, h.delivered,
    h.failures, ?_, fun later hopen hlater henough => h.offered_later hopen hlater henough,
    fun e error => ?_, fun e hstopped => ⟨step_handOver_of_stopped hstopped e,
      run_parts_of_stopped hstopped e⟩, fun e hopen => run_parts_of_open hopen e, d.run_works⟩
  · rw [h.split, List.append_assoc]
    exact List.prefix_append ..
  · rw [h.split, h.lostNone hopen, List.append_nil]
  · have hsplit := congrArg List.length h.split
    have hparts := (List.filter_append_perm (·.refused) d.offered).length_eq
    simp only [List.length_append, List.length_map] at hsplit hparts
    rw [h.queued, h.delivered, h.failed]
    omega
  · rw [h.queued]
    omega
  · rw [h.failures, List.length_map, h.failed]
  · rw [LocalWorker.handOver, h.sameTarget]
    cases d.worker.stopped with
    | true => simp [eq_comm]
    | false => simp

/-- The device lacks a key, whose press holds up no other; the worker is stopped with one edge queued,
while a sender has counted another one. -/
theorem offered_in_order_of_missing_key :
    let edge (pair : Nat) (key : String) : Edge :=
      { batch := 1, pair, fireAt := 0, key, verb := "jump", transition := .press }
    let steps : List LocalStep := [.refuse ["x"], .handOver (edge 0 "x"), .handOver (edge 1 "a"),
      .work 5, .handOver (edge 2 "b")]
    let d := (start {} {}).run steps
    let last := (start {} {}).run (steps ++ [.work 6, .count, .stop, .send (edge 3 "c")])
    d.taken <+: (d.run [.work 6, .refuse [], .work 6]).offered.map (·.edge) ∧
      last.worker.stats = { queued := 2, delivered := 1, failed := 1 } ∧ last.underway = 1 ∧
      last.taken.length + 1 = 2 + 1 + 1 ∧
      last.worker.handOver (edge 4 "d") = .error (.workerStopped "local player 0") := by
  intro edge steps d last
  have h := offered_in_order {} {} steps
  have hlast := offered_in_order {} {} (steps ++ [.work 6, .count, .stop, .send (edge 3 "c")])
  obtain ⟨-, -, -, -, -, -, -, -, -, hlater, -⟩ := h
  obtain ⟨-, -, hcounts, -, -, -, -, -, -, -, hrefused, -⟩ := hlast
  have hstats : last.worker.stats = { queued := 2, delivered := 1, failed := 1 } := by decide +kernel
  have hunderway : last.underway = 1 := by decide +kernel
  refine ⟨hlater _ (by decide +kernel) (by decide) (by decide +kernel), hstats, hunderway, ?_,
    (hrefused _ _).mpr ⟨by decide +kernel, by decide +kernel⟩⟩
  rw [show last.underway = 1 from hunderway, show last.worker.stats = _ from hstats] at hcounts
  exact hcounts

end LocalDelivery

end CrowdPad
