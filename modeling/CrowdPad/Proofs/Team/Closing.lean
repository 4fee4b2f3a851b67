import CrowdPad.Proofs.Scheduler.Cancelled
import CrowdPad.Proofs.Team.Ledger

/-! Teams that are to stop. The lanes, the worker and what takes out batches have their turns in any order, and
time passes whenever the lanes have nothing left to do and no batch is left that is over. No press is handed
over any more, and in time all releases are. What the worker has not applied by the time it is stopped is lost:
nothing but the order of the turns sees to it that this is nothing. -/

namespace CrowdPad

theorem Edge.isPress_iff {e : Edge} : e.isPress ↔ e.transition = .press := decide_eq_true_iff

theorem Edge.isPress_of_release {e : Edge} (h : e.transition = .release) : e.isPress = false :=
  decide_eq_false (h ▸ Transition.noConfusion)

namespace Ledger

variable {target : Target} {now goal : Time} {l l' : Ledger} {begun : List Edge} {e : Edge}

/-- The presses that were handed over. -/
def presses (l : Ledger) : List Edge := l.handed.filter Edge.isPress

/-- The releases that are still to come for presses that were handed over. -/
def owed (l : Ledger) : List Edge :=
  (l.queue ++ l.waiting).filter fun e => !e.isPress && l.presses.any fun press => press.pair == e.pair

theorem mem_owed : e ∈ l.owed ↔
    (e ∈ l.queue ∨ e ∈ l.waiting) ∧ e.isPress = false ∧ ∃ press ∈ l.presses, press.pair = e.pair := by
  simp only [owed, List.mem_filter, List.mem_append, Bool.and_eq_true, Bool.not_eq_true', List.any_eq_true,
    beq_iff_eq]

/-- Where no edge comes and no press is handed over, no more releases are to come. -/
theorem owed_subset (hedges : ∀ e, e ∈ l'.queue ∨ e ∈ l'.waiting → e ∈ l.queue ∨ e ∈ l.waiting)
    (hpresses : l'.presses = l.presses) : l'.owed ⊆ l.owed := by
  intro e he
  obtain ⟨hmem, hrelease, hpress⟩ := mem_owed.mp he
  exact mem_owed.mpr ⟨hedges e hmem, hrelease, hpresses ▸ hpress⟩

/-! ### Closing -/

/-- What holds of a team that is to stop while it waits: its batches are cancelled, no more presses are
handed over, and the releases to come are due before the end. -/
structure Closing (target : Target) (goal : Time) (begun : List Edge) (now : Time) (l : Ledger) : Prop where
  sound : l.Sound target now
  cancelled : ∀ b ∈ l.scheduler.batches, b.cancelled
  presses : l.presses = begun
  soon : ∀ e ∈ l.owed, e.fireAt < goal

/-- What waits in the lanes of a team that was settled: something is planned in every lane, and every batch
has a lane. -/
structure Walked (l : Ledger) : Prop where
  planned : ∀ lane ∈ l.scheduler.lanes, l.scheduler.plannedOf lane ≠ []
  busy : ∀ b ∈ l.scheduler.batches, l.scheduler.isWaiting b

/-- Whether nothing is left to do for the lanes of a team up to a moment. The worker may be behind. -/
structure Rests (later : Time) (l : Ledger) : Prop where
  walked : l.Walked
  due : ∀ e ∈ l.waiting, later ≤ e.fireAt

theorem batches_fire_eq_nil (h : l.scheduler.batches = []) : (l.fire now).scheduler.batches = [] := by
  rw [scheduler_fire, Scheduler.tick_batches, h]
  rfl

theorem batches_retire_eq_nil (h : l.scheduler.lanes = []) : l.retire.scheduler.batches = [] := by
  refine List.filter_eq_nil_iff.mpr fun b _ hwaiting => ?_
  have hlane : l.scheduler.isWaiting b := hwaiting
  rw [Scheduler.isWaiting, h] at hlane
  exact Bool.false_ne_true hlane

theorem Walked.batches_eq_nil (h : l.Walked) (hlanes : l.scheduler.lanes = []) :
    l.scheduler.batches = [] := by
  rw [List.eq_nil_iff_forall_not_mem]
  intro b hb
  have hwaiting := h.busy b hb
  rw [Scheduler.isWaiting, hlanes] at hwaiting
  exact Bool.false_ne_true hwaiting

/-- Behind a turn of the lanes, of the worker and of what takes out batches, lanes and batches are walked. -/
theorem walked_settle (horderly : l.scheduler.Orderly) (network : Attempt) :
    ((l.fire now).work now network).retire.Walked where
  planned lane hlane := by
    have hticked : lane ∈ (l.fire now).scheduler.lanes := hlane
    have hplanned : ((l.fire now).work now network).retire.scheduler.plannedOf lane =
        (l.fire now).scheduler.plannedOf lane :=
      congrArg (Lane.planned · lane) (Scheduler.isCancelled_retire _ hticked)
    rw [hplanned]
    exact horderly.plannedOf_tick_ne_nil hticked
  busy _ hb := (List.mem_filter.mp hb).2

theorem Closing.fire (h : l.Closing target goal begun now) : (l.fire now).Closing target goal begun now := by
  have hreleases : ∀ e ∈ (l.scheduler.tick now l.playback.worker.isAccepting).2, e.isPress = false :=
    fun e he => Edge.isPress_of_release (h.sound.orderly.release_of_mem_tick (fun b hb _ => h.cancelled b hb) he)
  obtain ⟨w, hworker, hopen, -⟩ := h.sound.here
  obtain ⟨stats, hhanded, -⟩ := fire_of_open hworker hopen now
  have hqueue := queue_fire_of_open hworker hopen now
  have hnone : (l.scheduler.tick now l.playback.worker.isAccepting).2.filter Edge.isPress = [] := by
    rw [List.filter_eq_nil_iff]
    intro e he
    rw [hreleases e he]
    exact Bool.false_ne_true
  have hpresses : (l.fire now).presses = l.presses := by
    rw [Ledger.presses, hhanded, List.filter_append, hnone, List.append_nil, Ledger.presses]
  refine ⟨h.sound.fire, ?_, hpresses.trans h.presses, fun e he => h.soon e (owed_subset ?_ hpresses he)⟩
  · intro b hb
    rw [scheduler_fire, Scheduler.tick_batches] at hb
    obtain ⟨before, hbefore, rfl⟩ := List.mem_map.mp hb
    exact h.cancelled before hbefore
  · rintro e (hqueued | hwaiting)
    · rw [hqueue, List.mem_append] at hqueued
      exact hqueued.imp_right waiting_of_mem_tick
    · exact .inr (waiting_fire hwaiting)

theorem Closing.apply (h : l.Closing target goal begun now) : (l.apply now).Closing target goal begun now := by
  obtain ⟨w, hworker, -⟩ := h.sound.here
  have hqueue := queue_apply hworker now
  obtain ⟨hscheduler, hhanded⟩ := apply_apart hworker now
  have hpresses : (l.apply now).presses = l.presses := congrArg (List.filter Edge.isPress) hhanded
  refine ⟨h.sound.apply, ?_, hpresses.trans h.presses, fun e he => h.soon e (owed_subset ?_ hpresses he)⟩
  · rw [hscheduler]
    exact h.cancelled
  · rw [hqueue, waiting, hscheduler]
    exact fun e hmem => hmem.imp_left List.mem_of_mem_tail

theorem Closing.retire (h : l.Closing target goal begun now) : l.retire.Closing target goal begun now where
  sound := h.sound.retire
  cancelled b hb := h.cancelled b (List.mem_filter.mp hb).1
  presses := h.presses
  soon := h.soon

theorem Closing.later {later : Time} (h : l.Closing target goal begun now)
    (hdue : ∀ e ∈ l.waiting, later ≤ e.fireAt) : l.Closing target goal begun later where
  sound := h.sound.later hdue
  cancelled := h.cancelled
  presses := h.presses
  soon := h.soon

theorem waiting_of_planned {lane : Lane} (hlane : lane ∈ l.scheduler.lanes)
    (he : e ∈ l.scheduler.plannedOf lane) : e ∈ l.waiting :=
  mem_waiting.mpr ⟨lane, hlane, (l.scheduler.plannedOf_sublist lane).subset he⟩

/-- What is planned in the lanes of a team that is to stop are releases still to come. -/
theorem Closing.owed_of_planned (h : l.Closing target goal begun now) {lane : Lane}
    (hlane : lane ∈ l.scheduler.lanes) (he : e ∈ l.scheduler.plannedOf lane) : e ∈ l.owed := by
  have horderly := h.sound.orderly
  have hreleases {lane : Lane} (hlane : lane ∈ l.scheduler.lanes) {e : Edge}
      (he : e ∈ l.scheduler.plannedOf lane) : e.transition = .release :=
    horderly.release_of_mem_planned hlane (fun b hb _ => h.cancelled b hb) he
  have hmem : e ∈ lane.edges := (l.scheduler.plannedOf_sublist lane).subset he
  obtain ⟨press, release, hpair, hbears⟩ := h.sound.borne e.pair (horderly.owned lane hlane e hmem).2
  have hcourse : e ∈ l.course press.pair := by
    refine List.mem_append_right _ ?_
    rw [Scheduler.plannedWhere_eq, List.mem_filter]
    exact ⟨List.mem_flatMap.mpr ⟨lane, hlane, he⟩, beq_iff_eq.mpr hpair.symm⟩
  have hpress : press ∈ l.course press.pair := by
    rcases hbears.whole with hwhole | hnone
    · rw [hwhole]
      exact List.mem_cons_self
    · rw [hnone] at hcourse
      exact absurd hcourse List.not_mem_nil
  have hdown := hbears.twins.down
  refine mem_owed.mpr ⟨.inr (waiting_of_planned hlane he), Edge.isPress_of_release (hreleases hlane he), press, ?_, hpair⟩
  rcases List.mem_append.mp hpress with hhanded | hplanned
  · exact List.mem_filter.mpr ⟨(List.mem_filter.mp hhanded).1, Edge.isPress_iff.mpr hdown⟩
  · -- A lane of a cancelled batch has no press planned.
    rw [Scheduler.plannedWhere_eq, List.mem_filter] at hplanned
    obtain ⟨other, hother, hmem'⟩ := List.mem_flatMap.mp hplanned.1
    rw [hreleases hother hmem'] at hdown
    cases hdown

/-- At the end of the wait nothing is planned any more. -/
theorem Closing.plannedOf_eq_nil (h : l.Closing target goal begun now)
    (hover : l.scheduler.batches = [] ∨ goal ≤ now) {lane : Lane} (hlane : lane ∈ l.scheduler.lanes) :
    l.scheduler.plannedOf lane = [] := by
  rcases hover with hidle | hgoal
  · rw [h.sound.orderly.lanes_eq_nil hidle] at hlane
    exact absurd hlane List.not_mem_nil
  · rw [List.eq_nil_iff_forall_not_mem]
    intro e he
    have howed := h.owed_of_planned hlane he
    obtain ⟨-, -, press, hpress, hpair⟩ := mem_owed.mp howed
    have hlate := h.sound.late e (waiting_of_planned hlane he) ⟨press, (List.mem_filter.mp hpress).1, hpair⟩
    exact absurd (Int.lt_of_lt_of_le (h.soon e howed) (Int.le_trans hgoal hlate)) (Int.lt_irrefl _)

/-- A team that rests until the end of the wait is idle. -/
theorem Closing.batches_eq_nil {later : Time} (h : l.Closing target goal begun now) (hrests : l.Rests later)
    (hgoal : goal ≤ later) : l.scheduler.batches = [] := by
  refine hrests.walked.batches_eq_nil (List.eq_nil_iff_forall_not_mem.mpr fun lane hlane => ?_)
  obtain ⟨e, he⟩ := List.exists_mem_of_ne_nil _ (hrests.walked.planned lane hlane)
  have hsoon := h.soon e (h.owed_of_planned hlane he)
  have hdue := hrests.due e (waiting_of_planned hlane he)
  exact absurd (Int.lt_of_lt_of_le hsoon (Int.le_trans hgoal hdue)) (Int.lt_irrefl _)

/-! ### The end -/

/-- Whether every press that was applied is followed by its release. -/
def Released (l : Ledger) : Prop :=
  ∀ front press rest, l.applied.map (·.2) = front ++ press :: rest → press.isPress →
    ∃ release ∈ rest, press.Twins release ∧ release.key = press.key

/-- What is lost with the queue of the worker: the edges of requests whose press was applied. -/
def lost (l : Ledger) : List Edge :=
  l.queue.filter fun e => l.applied.any fun p => p.2.isPress && p.2.pair == e.pair

theorem mem_lost : e ∈ l.lost ↔ e ∈ l.queue ∧ ∃ p ∈ l.applied, p.2.isPress ∧ p.2.pair = e.pair := by
  simp only [lost, List.mem_filter, List.any_eq_true, Bool.and_eq_true, beq_iff_eq]

/-- What holds of a team at the end of its wait: no press was handed over in it, and nothing is planned. -/
structure Ended (target : Target) (begun : List Edge) (now : Time) (l : Ledger) : Prop where
  sound : l.Sound target now
  presses : l.presses = begun
  planned : ∀ lane ∈ l.scheduler.lanes, l.scheduler.plannedOf lane = []

theorem Closing.ended (h : l.Closing target goal begun now)
    (hover : l.scheduler.batches = [] ∨ goal ≤ now) : l.Ended target begun now :=
  ⟨h.sound, h.presses, fun _ hlane => h.plannedOf_eq_nil hover hlane⟩

section Ended

variable (h : l.Ended target begun now)

include h

/-- What is planned of a request at the end was worked off, or is queued. -/
theorem Ended.course_eq (pair : Nat) : l.course pair =
    (l.worked.map (·.2)).filter (Edge.inPair pair) ++ l.queue.filter (Edge.inPair pair) := by
  rw [course, Scheduler.plannedWhere_eq, List.flatMap_eq_nil_iff.mpr h.planned, List.filter_nil,
    List.append_nil, h.sound.split, List.filter_append]

/-- Of a request of which anything was worked off, both edges were worked off or are queued. -/
theorem Ended.whole {p : Time × Edge} (hp : p ∈ l.worked) : ∃ press release,
    press.Twins release ∧ release.key = press.key ∧
      (l.worked.map (·.2)).filter (Edge.inPair p.2.pair) ++ l.queue.filter (Edge.inPair p.2.pair) =
        [press, release] := by
  have hhanded : p.2 ∈ l.handed := by
    rw [h.sound.split]
    exact List.mem_append_left _ (List.mem_map_of_mem hp)
  obtain ⟨press, release, hpair, hbears⟩ := h.sound.borne p.2.pair (h.sound.numbered p.2 hhanded)
  refine ⟨press, release, hbears.twins, hbears.sameKey, ?_⟩
  have hwhole := hbears.whole
  rw [hpair, h.course_eq] at hwhole
  refine hwhole.resolve_right fun hnone => ?_
  have hmem : p.2 ∈ (l.worked.map (·.2)).filter (Edge.inPair p.2.pair) :=
    List.mem_filter.mpr ⟨List.mem_map_of_mem hp, beq_self_eq_true _⟩
  rw [(List.append_eq_nil_iff.mp hnone).1] at hmem
  exact absurd hmem List.not_mem_nil

/-- Of a request whose press was applied, the release was applied too, if nothing of it is queued. -/
theorem Ended.applied_whole {p : Time × Edge} (hp : p ∈ l.applied) (hpress : p.2.isPress)
    (hnone : ∀ e ∈ l.queue, e.pair ≠ p.2.pair) : ∃ release,
    p.2.Twins release ∧ release.key = p.2.key ∧
      (l.applied.map (·.2)).filter (Edge.inPair p.2.pair) = [p.2, release] := by
  obtain ⟨hworked, htaken⟩ := List.mem_filter.mp hp
  obtain ⟨press, release, htwins, hkey, hwhole⟩ := h.whole hworked
  have hqueue : l.queue.filter (Edge.inPair p.2.pair) = [] :=
    List.filter_eq_nil_iff.mpr fun e he hpair => hnone e he (beq_iff_eq.mp hpair)
  rw [hqueue, List.append_nil] at hwhole
  have hmem : p.2 ∈ (l.worked.map (·.2)).filter (Edge.inPair p.2.pair) :=
    List.mem_filter.mpr ⟨List.mem_map_of_mem hworked, beq_self_eq_true _⟩
  have hsame : press = p.2 := by
    rw [hwhole] at hmem
    rcases List.mem_pair.mp hmem with hfirst | hsecond
    · exact hfirst.symm
    · rw [hsecond, Edge.isPress_of_release htwins.up] at hpress
      cases hpress
  subst hsame
  refine ⟨release, htwins, hkey, ?_⟩
  have happlied : l.applied.map (·.2) =
      (l.worked.map (·.2)).filter fun e => !l.device.failing.contains e.key := by
    rw [List.filter_map]
    rfl
  rw [happlied, List.filter_comm, hwhole, List.filter_eq_self]
  intro e he
  rcases List.mem_pair.mp he with rfl | rfl
  · exact htaken
  · rwa [hkey]

/-- A press that was applied is followed by its release, if nothing of its request is queued. -/
theorem Ended.release_behind {front rest : List Edge} {press : Edge}
    (hsplit : l.applied.map (·.2) = front ++ press :: rest) (hpress : press.isPress)
    (hnone : ∀ e ∈ l.queue, e.pair ≠ press.pair) :
    ∃ release ∈ rest, press.Twins release ∧ release.key = press.key := by
  have hmem : press ∈ l.applied.map (·.2) := by
    rw [hsplit]
    exact List.mem_append_right _ List.mem_cons_self
  obtain ⟨p, hp, rfl⟩ := List.mem_map.mp hmem
  obtain ⟨release, htwins, hkey, hboth⟩ := h.applied_whole hp hpress hnone
  have hof : p.2.inPair p.2.pair := beq_self_eq_true _
  rw [hsplit, List.filter_append, List.filter_cons_of_pos hof] at hboth
  refine ⟨release, ?_, htwins, hkey⟩
  cases hfront : front.filter (Edge.inPair p.2.pair) with
  | nil =>
      rw [hfront, List.nil_append, List.cons.injEq] at hboth
      have hrelease : release ∈ rest.filter (Edge.inPair p.2.pair) := hboth.2 ▸ List.mem_singleton_self _
      exact (List.mem_filter.mp hrelease).1
  | cons first more =>
      -- Then the press would stand where the release does.
      rw [hfront, List.cons_append, List.cons.injEq] at hboth
      have hlast : p.2 ∈ [release] := hboth.2 ▸ List.mem_append_right more List.mem_cons_self
      rw [List.mem_singleton.mp hlast, Edge.isPress_of_release htwins.up] at hpress
      cases hpress

/-- Where a press and its release were both worked off, nothing of their request is queued. -/
theorem Ended.not_queued {p : Time × Edge} {release : Edge} (hp : p ∈ l.worked)
    (hrelease : release ∈ l.worked.map (·.2)) (htwins : p.2.Twins release) {e : Edge} (he : e ∈ l.queue) :
    e.pair ≠ p.2.pair := by
  intro hpair
  obtain ⟨_, _, -, -, hwhole⟩ := h.whole hp
  have hfirst : p.2 ∈ (l.worked.map (·.2)).filter (Edge.inPair p.2.pair) :=
    List.mem_filter.mpr ⟨List.mem_map_of_mem hp, beq_self_eq_true _⟩
  have hsecond : release ∈ (l.worked.map (·.2)).filter (Edge.inPair p.2.pair) :=
    List.mem_filter.mpr ⟨hrelease, beq_iff_eq.mpr htwins.pair⟩
  have hqueued : e ∈ l.queue.filter (Edge.inPair p.2.pair) := List.mem_filter.mpr ⟨he, beq_iff_eq.mpr hpair⟩
  cases hworked : (l.worked.map (·.2)).filter (Edge.inPair p.2.pair) with
  | nil => exact absurd (hworked ▸ hfirst) List.not_mem_nil
  | cons a more =>
      rw [hworked, List.cons_append] at hwhole
      cases more with
      | nil =>
          -- One edge would be the press and the release.
          rw [hworked] at hfirst hsecond
          have hsame := (List.mem_singleton.mp hfirst).trans (List.mem_singleton.mp hsecond).symm
          have hdown := htwins.down
          rw [hsame, htwins.up] at hdown
          cases hdown
      | cons b more =>
          have hnone := (List.cons.inj (List.cons.inj hwhole).2).2
          rw [(List.append_eq_nil_iff.mp hnone).2] at hqueued
          exact absurd hqueued List.not_mem_nil

/-- **What a stop loses.** At the end of the wait every press that was applied is followed by its release
exactly if nothing is lost with the queue of the worker. -/
theorem Ended.released_iff : l.Released ↔ l.lost = [] := by
  rw [List.eq_nil_iff_forall_not_mem]
  constructor
  · intro hreleased e he
    obtain ⟨hqueued, p, hp, hpress, hpair⟩ := mem_lost.mp he
    obtain ⟨front, rest, hsplit⟩ := List.append_of_mem (List.mem_map_of_mem (f := (·.2)) hp)
    obtain ⟨release, hrelease, htwins, -⟩ := hreleased front p.2 rest hsplit hpress
    have happlied : release ∈ l.applied.map (·.2) := by
      rw [hsplit]
      exact List.mem_append_right _ (List.mem_cons_of_mem _ hrelease)
    have hworked : l.applied.map (·.2) ⊆ l.worked.map (·.2) :=
      List.map_subset _ (List.filter_subset_self _)
    exact h.not_queued (List.mem_filter.mp hp).1 (hworked happlied) htwins hqueued hpair.symm
  · intro hnone front press rest hsplit hpress
    have hmem : press ∈ l.applied.map (·.2) := by
      rw [hsplit]
      exact List.mem_append_right _ List.mem_cons_self
    obtain ⟨p, hp, rfl⟩ := List.mem_map.mp hmem
    refine h.release_behind hsplit hpress fun e he hpair => ?_
    exact hnone e (mem_lost.mpr ⟨he, p, hp, hpress, hpair.symm⟩)

end Ended

/-! ### Stopped -/

/-- What holds of a team whose worker is stopped: nothing more is handed over, and nothing happens on the
device. -/
structure Halted (handed : List Edge) (inputs : List Input) (l : Ledger) : Prop where
  orderly : l.scheduler.Orderly
  here : ∃ w, l.playback.worker = .here w ∧ w.stopped = true ∧ w.queue = []
  handed : l.handed = handed
  inputs : l.device.inputs = inputs

/-- Stops the worker. -/
def stop (l : Ledger) : Ledger := { l with playback := { l.playback with worker := l.playback.worker.stop } }

theorem Ended.halted (h : l.Ended target begun now) : l.stop.Halted l.handed l.device.inputs where
  orderly := h.sound.orderly
  here := by
    obtain ⟨w, hworker, -⟩ := h.sound.here
    exact ⟨w.stop, congrArg Worker.stop hworker, rfl, rfl⟩
  handed := rfl
  inputs := rfl

theorem halted_keeps (handed : List Edge) (inputs : List Input) :
    Keeps fun _ l => l.Halted handed inputs where
  orderly := Halted.orderly
  fire {now l} h := by
    obtain ⟨w, hworker, hstopped, hempty⟩ := h.here
    obtain ⟨htaken, hstays⟩ := Worker.handOverAll_stopped now hstopped
      (l.scheduler.tick now l.playback.worker.isAccepting).2
    rw [← hworker] at htaken hstays
    refine ⟨h.orderly.tick now _, ⟨w, hstays.trans hworker, hstopped, hempty⟩, ?_, h.inputs⟩
    rw [Ledger.fire, htaken, List.append_nil]
    exact h.handed
  work {now l} network h := by
    obtain ⟨w, hworker, hstopped, hempty⟩ := h.here
    rw [work_of_here hworker]
    refine ⟨h.orderly, ⟨_, rfl, hstopped, rfl⟩, h.handed, ?_⟩
    rw [LocalWorker.run_inputs, hempty]
    exact (List.append_nil _).trans h.inputs
  retire h := ⟨h.orderly.retire, h.here, h.handed, h.inputs⟩
  schedule requests reference h := ⟨h.orderly.schedule requests reference, h.here, h.handed, h.inputs⟩
  cancelIf which h := ⟨h.orderly.cancelIf which, h.here, h.handed, h.inputs⟩
  later h _ := h

/-! ### Whose batch is under way -/

/-- Whether the batches of all queued edges are under way. -/
def Attended (l : Ledger) : Prop := ∀ e ∈ l.queue, l.scheduler.isActive e.batch

theorem Attended.fire (h : l.Attended) (horderly : l.scheduler.Orderly) {w : LocalWorker}
    (hworker : l.playback.worker = .here w) (hopen : w.stopped = false) : (l.fire now).Attended := by
  rw [Attended, queue_fire_of_open hworker hopen, List.forall_mem_append]
  refine ⟨fun e he => ?_, fun e he => ?_⟩
  · rw [scheduler_fire, Scheduler.isActive_tick]
    exact h e he
  · obtain ⟨lane, hlane, hmem⟩ := Scheduler.mem_lane_of_mem_tick now _ he
    rw [scheduler_fire, Scheduler.isActive_tick, (horderly.owned lane hlane e hmem).1]
    exact horderly.registered lane hlane

theorem Attended.apply (h : l.Attended) {w : LocalWorker} (hworker : l.playback.worker = .here w) :
    (l.apply now).Attended := by
  rw [Attended, queue_apply hworker, (apply_apart hworker now).1]
  exact fun e he => h e (List.mem_of_mem_tail he)

/-- Where no batch is under way, nothing is queued. -/
theorem Attended.queue_eq_nil (h : l.Attended) (hidle : l.scheduler.batches = []) : l.queue = [] := by
  rw [List.eq_nil_iff_forall_not_mem]
  intro e he
  obtain ⟨b, hb, -⟩ := Scheduler.isActive_iff.mp (h e he)
  exact absurd (hidle ▸ hb) List.not_mem_nil

end Ledger

/-! ### Turns -/

/-- What goes on while a team is to stop. -/
inductive StopStep where
  /-- The lanes hand over what is due. -/
  | fire
  /-- The worker applies one edge. -/
  | apply
  | retire
  | later (now : Time)

/-- A team that is to stop, at a moment. -/
structure Stopping where
  now : Time
  ledger : Ledger

namespace Stopping

def step (p : Stopping) : StopStep → Stopping
  | .fire => { p with ledger := p.ledger.fire p.now }
  | .apply => { p with ledger := p.ledger.apply p.now }
  | .retire => { p with ledger := p.ledger.retire }
  | .later now => { p with now }

def run (p : Stopping) (steps : List StopStep) : Stopping := steps.foldl step p

/-- Whether each step is one that may be made where it is made. -/
def Makes (may : Stopping → StopStep → Prop) (p : Stopping) : List StopStep → Prop
  | [] => True
  | σ :: rest => may p σ ∧ (p.step σ).Makes may rest

/-- Time passes only when nothing is left to do but for the worker, and over nothing that is due. -/
def IsTimely (p : Stopping) (σ : StopStep) : Prop :=
  ∀ later, σ = .later later → p.now ≤ later ∧ p.ledger.Rests later

/-- A batch is taken out only when none of its edges is queued any more. -/
def IsInOrder (p : Stopping) (σ : StopStep) : Prop := σ = .retire → p.ledger.retire.Attended

/-- Whether a wait is over: no batch is under way, or the time to wait is. -/
def IsOver (goal : Time) (p : Stopping) : Prop := p.ledger.scheduler.batches = [] ∨ goal ≤ p.now

variable {may : Stopping → StopStep → Prop} {p : Stopping} {target : Target} {goal : Time}
  {begun : List Edge} {steps : List StopStep}

theorem makes_append {before behind : List StopStep} :
    p.Makes may (before ++ behind) ↔ p.Makes may before ∧ (p.run before).Makes may behind := by
  induction before generalizing p with
  | nil => exact (and_iff_right trivial).symm
  | cons σ rest ih => exact (and_congr_right fun _ => ih).trans and_assoc.symm

theorem Makes.and {may' : Stopping → StopStep → Prop} (hsteps : p.Makes may steps)
    (hsteps' : p.Makes may' steps) : p.Makes (fun p σ => may p σ ∧ may' p σ) steps := by
  induction steps generalizing p with
  | nil => trivial
  | cons σ rest ih => exact ⟨⟨hsteps.1, hsteps'.1⟩, ih hsteps.2 hsteps'.2⟩

/-- What every step that may be made keeps holds behind them all. -/
theorem Makes.run {P : Stopping → Prop} (hsteps : p.Makes may steps)
    (hkeeps : ∀ p σ, may p σ → P p → P (p.step σ)) (h : P p) : P (p.run steps) := by
  induction steps generalizing p with
  | nil => exact h
  | cons σ rest ih => exact ih hsteps.2 (hkeeps p σ hsteps.1 h)

theorem closing_step (σ : StopStep) (hσ : p.IsTimely σ) (h : p.ledger.Closing target goal begun p.now) :
    (p.step σ).ledger.Closing target goal begun (p.step σ).now := by
  cases σ with
  | fire => exact h.fire
  | apply => exact h.apply
  | retire => exact h.retire
  | later now => exact h.later (hσ now rfl).2.due

/-- As long as some batch is under way, the time to wait is not over. -/
theorem waits_step (σ : StopStep) (hσ : p.IsTimely σ) (h : p.ledger.Closing target goal begun p.now)
    (hwaits : p.ledger.scheduler.batches = [] ∨ p.now < goal) :
    (p.step σ).ledger.scheduler.batches = [] ∨ (p.step σ).now < goal := by
  cases σ with
  | fire => exact hwaits.imp_left Ledger.batches_fire_eq_nil
  | apply =>
      obtain ⟨w, hworker, -⟩ := h.sound.here
      refine hwaits.imp_left fun hidle => ?_
      show (p.ledger.apply p.now).scheduler.batches = []
      rw [(Ledger.apply_apart hworker p.now).1]
      exact hidle
  | retire =>
      refine hwaits.imp_left fun hidle => ?_
      show p.ledger.scheduler.batches.filter p.ledger.scheduler.isWaiting = []
      rw [hidle]
      rfl
  | later now =>
      rcases lt_or_ge now goal with hsooner | hgoal
      · exact .inr hsooner
      · exact .inl (h.batches_eq_nil (hσ now rfl).2 hgoal)

theorem attended_step (σ : StopStep) (hσ : p.IsInOrder σ) (h : p.ledger.Closing target goal begun p.now)
    (hattended : p.ledger.Attended) : (p.step σ).ledger.Attended := by
  obtain ⟨w, hworker, hopen, -⟩ := h.sound.here
  cases σ with
  | fire => exact hattended.fire h.sound.orderly hworker hopen
  | apply => exact hattended.apply hworker
  | retire => exact hσ rfl
  | later now => exact hattended

/-- Whether a team that is to stop gets somewhere by timely steps, with batches taken out in order. -/
def Reaches (p last : Stopping) : Prop :=
  ∃ steps, p.Makes IsTimely steps ∧ p.Makes IsInOrder steps ∧ p.run steps = last

theorem Reaches.refl (p : Stopping) : p.Reaches p := ⟨[], trivial, trivial, rfl⟩

theorem Reaches.step {last : Stopping} (h : p.Reaches last) (σ : StopStep) (htimely : last.IsTimely σ)
    (horder : last.IsInOrder σ) : p.Reaches (last.step σ) := by
  obtain ⟨steps, htimely', horder', rfl⟩ := h
  exact ⟨steps ++ [σ], makes_append.mpr ⟨htimely', htimely, trivial⟩,
    makes_append.mpr ⟨horder', horder, trivial⟩, List.foldl_append ..⟩

section Run

variable (hsteps : p.Makes IsTimely steps) (h : p.ledger.Closing target goal begun p.now)

include hsteps h

theorem closing_run : (p.run steps).ledger.Closing target goal begun (p.run steps).now :=
  hsteps.run (fun _ σ hσ h => closing_step σ hσ h) h

/-- If there was any time to wait, a team is idle when the wait is over. -/
theorem idle_run (hgoal : p.now < goal) (hover : (p.run steps).IsOver goal) :
    (p.run steps).ledger.scheduler.batches = [] := by
  obtain ⟨-, hwaits⟩ := hsteps.run
    (P := fun p => p.ledger.Closing target goal begun p.now ∧
      (p.ledger.scheduler.batches = [] ∨ p.now < goal))
    (fun _ σ hσ h => ⟨closing_step σ hσ h.1, waits_step σ hσ h.1 h.2⟩) ⟨h, .inr hgoal⟩
  rcases hwaits with hidle | hsooner
  · exact hidle
  · exact hover.resolve_right (not_le.mpr hsooner)

/-- If batches are taken out in order, the batches of all queued edges stay under way. -/
theorem attended_run (horder : p.Makes IsInOrder steps) (hattended : p.ledger.Attended) :
    (p.run steps).ledger.Attended := by
  have hboth : p.Makes (fun p σ => p.IsTimely σ ∧ p.IsInOrder σ) steps := hsteps.and horder
  exact (hboth.run (P := fun p => p.ledger.Closing target goal begun p.now ∧ p.ledger.Attended)
    (fun _ σ hσ h => ⟨closing_step σ hσ.1 h.1, attended_step σ hσ.2 h.1 h.2⟩) ⟨h, hattended⟩).2

end Run

end Stopping

end CrowdPad
