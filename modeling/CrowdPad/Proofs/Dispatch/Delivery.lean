import CrowdPad.Proofs.Dispatch.Backoff
import CrowdPad.Proofs.Dispatch.Move

/-! Deliveries over the network: a worker in the course of its moves, with a record of what it was
handed, what it wrote and what it found too old. Its counters and the numbers of its messages agree
with the record, whatever the network does, and it never gives up a release. What a worker does without
pause is a sequence of moves. -/

namespace CrowdPad

/-- What a worker meets: it is handed an edge, or it makes a move. -/
inductive RemoteStep where
  | handOver (e : Edge)
  | move (now : Time) (a : Attempt)

/-- A worker, with what was handed to it, what it wrote, and the presses that it found too old. -/
structure Delivery where
  worker : RemoteWorker
  handed : List Edge := []
  written : List (Edge × WireMessage) := []
  overdue : List (Time × Edge) := []

/-- The messages of edges that are written one after the other. -/
def numbered (target : Target) (edges : List Edge) : List WireMessage :=
  edges.mapIdx fun i e =>
    { player := target.player.toUInt8, key := e.key, transition := e.transition, seq := i.toUInt64 }

namespace Delivery

/-- A worker that has nothing yet. -/
def start (target : Target) (settings : RemoteSettings) : Delivery :=
  { worker := { target, settings } }

/-- The record of a move. -/
def behind (d : Delivery) (now : Time) (result : MoveResult) : Delivery :=
  { d with
    worker := result.worker
    written := d.written ++ d.worker.current.toList.zip (result.written.map (·.2)).toList
    overdue := d.overdue ++ (d.worker.current.filter (d.worker.isStale now)).toList.map (now, ·) }

/-- A worker that waits lets the time pass. -/
def step (d : Delivery) : RemoteStep → Delivery
  | .handOver e =>
    match d.worker.handOver e with
    | .ok worker => { d with worker, handed := d.handed ++ [e] }
    | .error _ => d
  | .move now a =>
    if d.worker.isWaiting now then d else d.behind now (d.worker.move now a)

def run (d : Delivery) (steps : List RemoteStep) : Delivery := steps.foldl step d

/-- What there is to tell in the course of some steps, where each of them is looked at before it is
made. -/
def gather {α : Type} (tell : Delivery → RemoteStep → Option α) (d : Delivery) :
    List RemoteStep → List α
  | [] => []
  | σ :: rest => (tell d σ).toList ++ gather tell (d.step σ) rest

/-- The edges that were written. -/
def edges (d : Delivery) : List Edge := d.written.map (·.1)

variable {target : Target} {settings : RemoteSettings} {d : Delivery} {now : Time} {e : Edge}
  {result : MoveResult}

/-! ### What a move changes -/

section Behind

theorem behind_of_none (hcurrent : d.worker.current = none) (worker : RemoteWorker) :
    d.behind now { worker, finish := now } = { d with worker } := by
  simp [behind, hcurrent]

variable (hcurrent : d.worker.current = some e)

include hcurrent

theorem behind_overdue (hstale : d.worker.isStale now e) :
    d.behind now (d.worker.dropStale now e) =
      { d with
        worker := (d.worker.dropStale now e).worker
        overdue := d.overdue ++ [(now, e)] } := by
  simp [behind, hcurrent, hstale, RemoteWorker.dropStale]

variable (hfresh : d.worker.isStale now e = false)

include hfresh

theorem behind_failed (worker : RemoteWorker) (finish : Time) (error : DispatchError) :
    d.behind now (worker.fail finish e error) =
      { d with worker := (worker.fail finish e error).worker } := by
  simp [behind, hcurrent, hfresh, RemoteWorker.fail]

theorem behind_wrote (worker : RemoteWorker) (start finish : Time) :
    d.behind now (worker.wrote e start finish) =
      { d with
        worker := (worker.wrote e start finish).worker
        written := d.written ++ [(e, worker.messageOf e)] } := by
  simp [behind, hcurrent, hfresh, RemoteWorker.wrote]

end Behind

theorem edges_append {worker : RemoteWorker} {message : WireMessage} :
    edges { d with worker, written := d.written ++ [(e, message)] } = d.edges ++ [e] :=
  List.map_append

theorem numbered_concat (target : Target) (edges : List Edge) (e : Edge) :
    numbered target (edges ++ [e]) = numbered target edges ++
      [{ player := target.player.toUInt8, key := e.key, transition := e.transition
         seq := edges.length.toUInt64 }] :=
  List.mapIdx_concat

theorem numbered_front (target : Target) {first whole : List Edge} (h : first <+: whole) :
    numbered target first <+: numbered target whole := by
  obtain ⟨rest, rfl⟩ := h
  rw [numbered, numbered, List.mapIdx_append]
  exact List.prefix_append ..

/-! ### Books -/

/-- Whether the counters and the numbers of the messages agree with the record. -/
structure Booked (target : Target) (settings : RemoteSettings) (d : Delivery) : Prop where
  sameTarget : d.worker.target = target
  sameSettings : d.worker.settings = settings
  seq : d.worker.seq = d.edges.length
  delivered : d.worker.stats.delivered = d.edges.length
  staleDropped : d.worker.stats.staleDropped = d.overdue.length
  messages : d.written.map (·.2) = numbered target d.edges
  old : ∀ p ∈ d.overdue,
    p.2.transition = .press ∧ settings.stalenessMs < RemoteWorker.lateMs p.1 p.2

theorem Booked.behind (h : d.Booked target settings)
    (hmoved : RemoteWorker.Moved d.worker now result) :
    (d.behind now result).Booked target settings := by
  obtain ⟨htarget, hsettings, hseq, hdelivered, hdropped, hmessages, hold⟩ := h
  cases hmoved with
  | idle hcurrent | passedOver hcurrent | taken hcurrent =>
      rw [behind_of_none hcurrent]
      exact ⟨htarget, hsettings, hseq, hdelivered, hdropped, hmessages, hold⟩
  | @overdue e hcurrent hstale =>
      rw [behind_overdue hcurrent hstale]
      refine ⟨htarget, hsettings, hseq, hdelivered, ?_, hmessages, ?_⟩
      · rw [List.length_append, ← hdropped]
        rfl
      · intro p hp
        rcases List.mem_append.mp hp with hearlier | hlast
        · exact hold p hearlier
        · rw [List.mem_singleton.mp hlast]
          simpa [RemoteWorker.isStale, Edge.isPress, hsettings] using hstale
  | @attempted e result hcurrent hfresh hattempted =>
      cases hattempted with
      | failed connected hlater =>
          rw [behind_failed hcurrent hfresh]
          exact ⟨htarget, hsettings, hseq, hdelivered, hdropped, hmessages, hold⟩
      | written connected hfits =>
          rw [behind_wrote hcurrent hfresh]
          constructor
          · exact htarget
          · exact hsettings
          · rw [edges_append, List.length_append, ← hseq]
            rfl
          · rw [edges_append, List.length_append, ← hdelivered]
            rfl
          · exact hdropped
          · rw [edges_append, numbered_concat, List.map_append, hmessages, ← hseq, ← htarget]
            rfl
          · exact hold

/-! ### Runs -/

theorem start_booked (target : Target) (settings : RemoteSettings) :
    (start target settings).Booked target settings where
  sameTarget := rfl
  sameSettings := rfl
  seq := rfl
  delivered := rfl
  staleDropped := rfl
  messages := rfl
  old := fun _ h => absurd h List.not_mem_nil

theorem step_handOver (d : Delivery) (e : Edge) : d.step (.handOver e) = d ∨
    d.step (.handOver e) =
      { d with
        worker :=
          { d.worker with
            queue := d.worker.queue ++ [e]
            stats := { d.worker.stats with queued := d.worker.stats.queued + 1 } }
        handed := d.handed ++ [e] } := by
  by_cases hstopped : d.worker.stopped
  · left
    rw [step, RemoteWorker.handOver, if_pos hstopped]
  · right
    rw [step, RemoteWorker.handOver, if_neg hstopped]

theorem step_move (a : Attempt) (hready : d.worker.isWaiting now = false) :
    d.step (.move now a) = d.behind now (d.worker.move now a) := by
  rw [step, hready]
  rfl

/-- What a step can come to: nothing happens, an edge is queued, or the worker moves. -/
@[elab_as_elim]
theorem step_cases {motive : Delivery → Prop} (d : Delivery) (σ : RemoteStep) (rests : motive d)
    (queues : ∀ e, σ = .handOver e → motive { d with
      worker :=
        { d.worker with
          queue := d.worker.queue ++ [e]
          stats := { d.worker.stats with queued := d.worker.stats.queued + 1 } }
      handed := d.handed ++ [e] })
    (moves : ∀ now a, σ = .move now a →
      RemoteWorker.Moved d.worker now (d.worker.move now a) →
      motive (d.behind now (d.worker.move now a))) :
    motive (d.step σ) := by
  cases σ with
  | handOver e =>
      rcases d.step_handOver e with hsame | htaken
      · rwa [hsame]
      · rw [htaken]
        exact queues e rfl
  | move now a =>
      cases hready : d.worker.isWaiting now with
      | true => rwa [step, if_pos hready]
      | false =>
          rw [step_move a hready]
          exact moves now a rfl (RemoteWorker.moved_move d.worker now a)

theorem Booked.step (h : d.Booked target settings) (σ : RemoteStep) :
    (d.step σ).Booked target settings := by
  refine d.step_cases σ ?_ ?_ ?_
  · exact h
  · intro _ _
    exact ⟨h.sameTarget, h.sameSettings, h.seq, h.delivered, h.staleDropped, h.messages, h.old⟩
  · exact fun _ _ _ hmoved => h.behind hmoved

theorem Booked.run (h : d.Booked target settings) (steps : List RemoteStep) :
    (d.run steps).Booked target settings :=
  List.foldlRecOn steps Delivery.step h fun _ hd σ _ => hd.step σ

theorem handed_step (d : Delivery) (σ : RemoteStep) : d.handed <+: (d.step σ).handed :=
  d.step_cases σ (List.prefix_refl _) (fun _ _ => List.prefix_append ..)
    fun _ _ _ _ => List.prefix_refl _

theorem handed_run (d : Delivery) (steps : List RemoteStep) : d.handed <+: (d.run steps).handed :=
  List.foldlRecOn (motive := fun u : Delivery => d.handed <+: u.handed) steps step
    (List.prefix_refl _) fun u hu σ _ => hu.trans (u.handed_step σ)

/-! ### The next wait -/

theorem allowed_step (h : d.Booked target settings) (hallowed : settings.IsAllowed d.worker.backoff)
    (σ : RemoteStep) : settings.IsAllowed (d.step σ).worker.backoff := by
  refine d.step_cases σ ?_ ?_ ?_
  · exact hallowed
  · exact fun _ _ => hallowed
  · intro now a _ hmoved
    generalize d.worker.move now a = result at hmoved
    cases hmoved with
    | idle | passedOver | taken | overdue => exact hallowed
    | attempted hcurrent hfresh hattempted =>
        cases hattempted with
        | failed connected hlater =>
            have hnext := d.worker.settings.nextBackoff_le d.worker.backoff
            rw [h.sameSettings] at hnext
            exact .inr (h.sameSettings ▸ hnext)
        | written connected hfits => exact .inl (congrArg RemoteSettings.firstBackoff h.sameSettings)

/-- Whatever a worker meets, its next wait is a first one or within the ceiling. -/
theorem allowed_run (target : Target) (settings : RemoteSettings) (steps : List RemoteStep) :
    settings.IsAllowed ((start target settings).run steps).worker.backoff := by
  have hboth : ((start target settings).run steps).Booked target settings ∧
      settings.IsAllowed ((start target settings).run steps).worker.backoff :=
    List.foldlRecOn
      (motive := fun d : Delivery => d.Booked target settings ∧ settings.IsAllowed d.worker.backoff)
      steps step ⟨start_booked target settings, .inl rfl⟩
      fun d hd σ _ => ⟨hd.1.step σ, allowed_step hd.1 hd.2 σ⟩
  exact hboth.2

/-! ### Releases -/

/-- Whether the worker insists on an edge: whenever it does not wait, it tries to write that edge, and
where that fails it keeps the edge and sets the time of the next attempt. -/
def Insists (d : Delivery) (e : Edge) : Prop :=
  ∀ now a, d.worker.isWaiting now = false →
    let next := d.step (.move now a)
    (next.written = d.written ++ [(e, d.worker.messageOf e)] ∨
      next.worker.current = some e ∧ next.worker.wakeAt.isSome ∧
        next.worker.stats.failed = d.worker.stats.failed + 1) ∧
    (a.Succeeds d.worker.settings → (d.worker.messageOf e).fits →
      next.written = d.written ++ [(e, d.worker.messageOf e)])

theorem insists_of_release (hcurrent : d.worker.current = some e)
    (hrelease : e.transition = .release) : d.Insists e := by
  intro now a hready next
  have hfresh : d.worker.isStale now e = false := by
    simp [RemoteWorker.isStale, Edge.isPress, hrelease]
  have hnext : next = d.behind now (d.worker.attempt now a e) := by
    rw [← RemoteWorker.move_of_fresh hcurrent hfresh]
    exact step_move a hready
  rw [hnext]
  constructor
  · have hattempted := RemoteWorker.attempted_attempt d.worker now a e
    generalize d.worker.attempt now a e = result at hattempted
    cases hattempted with
    | failed connected hlater =>
        rw [behind_failed hcurrent hfresh]
        exact .inr ⟨hcurrent, rfl, rfl⟩
    | written connected hfits =>
        rw [behind_wrote hcurrent hfresh]
        exact .inl rfl
  · intro ha hfits
    obtain ⟨connected, start, finish, hattempt⟩ :=
      RemoteWorker.attempt_of_succeeds now ha hfits
    rw [hattempt, behind_wrote hcurrent hfresh]
    rfl

/-! ### Working without pause -/

theorem behind_messages (hmoved : RemoteWorker.Moved d.worker now result) :
    (d.behind now result).written.map (·.2) =
      d.written.map (·.2) ++ (result.written.map (·.2)).toList := by
  cases hmoved with
  | idle hcurrent | passedOver hcurrent | taken hcurrent =>
      rw [behind_of_none hcurrent]
      exact (List.append_nil _).symm
  | overdue hcurrent hstale =>
      rw [behind_overdue hcurrent hstale]
      exact (List.append_nil _).symm
  | attempted hcurrent hfresh hattempted =>
      cases hattempted with
      | failed connected hlater =>
          rw [behind_failed hcurrent hfresh]
          exact (List.append_nil _).symm
      | written connected hfits =>
          rw [behind_wrote hcurrent hfresh]
          exact List.map_append

theorem runMoves_eq (now : Time) (a : Attempt) (fuel : Nat) (d : Delivery)
    (hfuel : d.worker.isWaiting now ∨ d.worker.toDo ≤ fuel) :
    ∃ count, let last := d.run (List.replicate count (.move now a))
      (last.worker.isWaiting now ∨ last.worker.pending = []) ∧
      (RemoteWorker.runMoves now a fuel d.worker).1 = last.worker ∧
      last.written.map (·.2) =
        d.written.map (·.2) ++ (RemoteWorker.runMoves now a fuel d.worker).2.1 := by
  -- A move uses up fuel as it brings the worker closer to the end; a failed attempt makes it wait, and
  -- then no fuel is needed.
  induction fuel generalizing d with
  | zero =>
      refine ⟨0, hfuel.imp_right fun hnone => ?_, rfl, (List.append_nil _).symm⟩
      exact d.worker.pending_eq_nil (Nat.le_zero.mp hnone)
  | succ fuel ih =>
      rw [RemoteWorker.runMoves]
      cases hready : d.worker.isWaiting now with
      | true => exact ⟨0, .inl hready, rfl, (List.append_nil _).symm⟩
      | false =>
          by_cases hpending : d.worker.pending = []
          · rw [hpending]
            exact ⟨0, .inr hpending, rfl, (List.append_nil _).symm⟩
          · have hmoved := RemoteWorker.moved_move d.worker now a
            have hmost : d.worker.toDo ≤ fuel + 1 :=
              hfuel.resolve_left fun hwaiting => by rw [hready] at hwaiting; cases hwaiting
            obtain ⟨count, hlast, hworker, hwritten⟩ :=
              ih (d.behind now (d.worker.move now a))
                (hmoved.toDo_le.imp_right fun hless => hless.trans (Nat.sub_le_of_le_add hmost))
            have hnext : d.run (List.replicate (count + 1) (.move now a)) =
                (d.behind now (d.worker.move now a)).run (List.replicate count (.move now a)) := by
              rw [List.replicate_succ, run, List.foldl_cons, step_move a hready, run]
            have hsome : d.worker.pending.isEmpty = false := by simpa using hpending
            refine ⟨count + 1, ?_⟩
            rw [hnext, hsome]
            refine ⟨hlast, hworker, ?_⟩
            rw [hwritten, behind_messages hmoved, List.append_assoc]
            rfl

/-- What a worker does without pause is a number of moves, up to one behind which it has to wait or
nothing is left to do. -/
theorem run_eq_moves (d : Delivery) (now : Time) (a : Attempt) :
    ∃ count, let last := d.run (List.replicate count (.move now a))
      (last.worker.isWaiting now ∨ last.worker.pending = []) ∧
      (d.worker.run now a).1 = last.worker ∧
      last.written.map (·.2) = d.written.map (·.2) ++ (d.worker.run now a).2.1 :=
  runMoves_eq now a _ d (.inr d.worker.toDo_le)

end Delivery

end CrowdPad
