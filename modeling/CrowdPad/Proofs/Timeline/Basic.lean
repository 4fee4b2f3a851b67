import CrowdPad.Proofs.Clock
import CrowdPad.Proofs.Scheduler.Plan

/-! A scheduler in the course of time. A timeline keeps what has left the scheduler, edges and ended
batches, with the moments at which they did. It goes on by the operations of the scheduler and by
the clock; since a settled scheduler idles until the next edge is due, the clock may be taken to stop
at every single moment. -/

namespace CrowdPad

/-- An edge that left its lane. -/
structure Departure where
  time : Time
  edge : Edge
  /-- Whether the worker took it. -/
  taken : Bool
deriving Repr, DecidableEq

/-- A scheduler at a moment, with what has left it. -/
structure Timeline where
  now : Time := 0
  scheduler : Scheduler := {}
  /-- Whether the worker takes edges. -/
  accepting : Bool := true
  departures : List Departure := []
  /-- The batches that are over, as they ended. -/
  reports : List (Time × Batch) := []
deriving Repr, DecidableEq

/-- One step of a timeline. -/
inductive Step where
  | schedule (requests : List Request) (reference : Time)
  | cancel (batch : Nat)
  | cancelAll
  /-- Time passes, and what is due at the end of it is still to be handed over. -/
  | reach (ms : Nat)
  /-- Time passes, and all that is due is handed over. -/
  | advance (ms : Nat)
  /-- The worker takes no more edges. -/
  | stopWorker
deriving Repr, DecidableEq

/-- Whether a step cancels a batch. -/
def Step.covers : Step → Nat → Bool
  | .cancel batch => fun id => id == batch
  | .cancelAll => fun _ => true
  | _ => fun _ => false

namespace Timeline

/-- Hands over what is due at a moment, and takes out the batches that are over. -/
def settleAt (time : Time) (t : Timeline) : Timeline :=
  let (ticked, edges) := t.scheduler.tick time t.accepting
  let (scheduler, ended) := ticked.retire
  { t with
    scheduler
    departures := t.departures ++ edges.map fun edge => { time, edge, taken := t.accepting }
    reports := t.reports ++ ended.map fun b => (time, b) }

def nextDue? (t : Timeline) : Option Time := t.scheduler.nextDue?

def step (t : Timeline) : Step → Timeline
  | .schedule requests reference =>
    { t with scheduler := (t.scheduler.schedule requests reference).1 }
  | .cancel batch => { t with scheduler := t.scheduler.cancel batch }
  | .cancelAll => { t with scheduler := t.scheduler.cancelAll }
  | .reach ms =>
    let (now, t) := Clock.wait settleAt nextDue? (fun _ => false) (t.now + ms) t.now t
    { t with now }
  | .advance ms =>
    { Clock.advance settleAt nextDue? (t.now + ms) t.now t with now := t.now + ms }
  | .stopWorker => { t with accepting := false }

def run (t : Timeline) (steps : List Step) : Timeline := steps.foldl step t

theorem run_append (t : Timeline) (first second : List Step) :
    t.run (first ++ second) = (t.run first).run second :=
  List.foldl_append

theorem run_cons (t : Timeline) (first : Step) (rest : List Step) :
    t.run (first :: rest) = (t.step first).run rest := rfl

theorem run_concat (t : Timeline) (steps : List Step) (last : Step) :
    t.run (steps ++ [last]) = (t.run steps).step last :=
  run_append t steps [last]

/-! ### Single moments -/

theorem nextDue_le {s : Scheduler} {due : Time} (hdue : s.nextDue? = some due) {lane : Lane}
    (hlane : lane ∈ s.lanes) {e : Edge} (he : lane.edges.head? = some e) : due ≤ e.fireAt := by
  rw [Scheduler.nextDue?, List.min?_eq_some_iff] at hdue
  apply hdue.2
  rw [List.mem_filterMap]
  exact ⟨lane, hlane, by rw [Lane.due?, he, Option.map_some]⟩

theorem settleAt_scheduler (time : Time) (t : Timeline) :
    (t.settleAt time).scheduler = (t.scheduler.tick time t.accepting).1.retire.1 := rfl

theorem isStill_settleAt (time later : Time) (t : Timeline)
    (hlater : ∀ due, (t.settleAt time).nextDue? = some due → later < due) {lane : Lane}
    (hlane : lane ∈ (t.settleAt time).scheduler.lanes) :
    (t.settleAt time).scheduler.isStill later lane := by
  have hlate : ∀ e, lane.edges.head? = some e → later < e.fireAt := by
    intro e he
    cases hdue : (t.settleAt time).nextDue? with
    | some due => exact Int.lt_of_lt_of_le (hlater due hdue) (nextDue_le hdue hlane he)
    | none =>
        rw [nextDue?, Scheduler.nextDue?, List.min?_eq_none_iff, List.filterMap_eq_nil_iff] at hdue
        have hnone := hdue lane hlane
        rw [Lane.due?, he] at hnone
        exact absurd hnone (Option.some_ne_none _)
  have hticked : lane ∈ (t.scheduler.tick time t.accepting).1.lanes := hlane
  rw [settleAt_scheduler, Scheduler.isStill_retire _ later hticked]
  exact Scheduler.isStill_tick _ _ _ later hticked hlate

/-- A settled scheduler does nothing until the next edge is due. -/
theorem idles_settleAt : Clock.Idles settleAt nextDue? := by
  intro now later t hlater
  have hstill : ∀ lane ∈ (t.settleAt now).scheduler.lanes,
      (t.settleAt now).scheduler.isStill later lane :=
    fun _ hlane => isStill_settleAt now later t hlater hlane
  have hretired : (t.settleAt now).scheduler.retire = ((t.settleAt now).scheduler, []) :=
    Scheduler.retire_eq_self _ fun b hb => (List.mem_filter.mp hb).2
  rw [settleAt, Scheduler.tick_eq_self _ _ _ hstill]
  simp only [hretired, List.map_nil, List.append_nil]

def settle (t : Timeline) : Timeline := t.settleAt t.now

def later (t : Timeline) : Timeline := { t with now := t.now + 1 }

/-- Lets so many moments pass, each of them settled. -/
def pass (t : Timeline) : Nat → Timeline
  | 0 => t
  | ms + 1 => t.settle.later.pass ms

theorem everyMoment_settleAt (time now : Time) (ms : Nat) (t : Timeline) :
    Clock.everyMoment settleAt time ms { t with now } =
      { Clock.everyMoment settleAt time ms t with now } := by
  induction ms generalizing time t with
  | zero => rfl
  | succ ms ih => exact ih (time + 1) (t.settleAt time)

theorem everyMoment_eq_pass (t : Timeline) (ms : Nat) :
    { Clock.everyMoment settleAt t.now ms t with now := t.now + ms } = t.pass ms := by
  induction ms generalizing t with
  | zero => simp only [Clock.everyMoment, pass, Int.natCast_zero, Int.add_zero]
  | succ ms ih =>
      have hnow : t.now + (ms + 1 : Nat) = t.settle.later.now + ms := by
        rw [later, settle, settleAt]
        lia
      have hmoments : Clock.everyMoment settleAt t.settle.later.now ms t.settle.later =
          { Clock.everyMoment settleAt (t.now + 1) ms t.settle with now := t.now + 1 } :=
        everyMoment_settleAt (t.now + 1) (t.now + 1) ms t.settle
      rw [pass, ← ih, hmoments, hnow]
      rfl

theorem step_reach (t : Timeline) (ms : Nat) : t.step (.reach ms) = t.pass ms := by
  rw [step, Clock.wait_eq_everyMoment idles_settleAt]
  exact everyMoment_eq_pass t ms

theorem step_advance (t : Timeline) (ms : Nat) : t.step (.advance ms) = (t.pass ms).settle := by
  rw [step, Clock.advance_eq_everyMoment idles_settleAt, ← everyMoment_eq_pass, settle]
  rfl

/-! ### What holds along a run -/

variable {t : Timeline}

theorem mem_settle_departures {d : Departure} : d ∈ t.settle.departures ↔ d ∈ t.departures ∨
    ∃ e ∈ (t.scheduler.tick t.now t.accepting).2,
      d = { time := t.now, edge := e, taken := t.accepting } := by
  simp only [settle, settleAt, List.mem_append, List.mem_map, eq_comm]

theorem step_of_covers {σ : Step} (hcovers : ∃ id, σ.covers id) :
    t.step σ = { t with scheduler := t.scheduler.cancelIf σ.covers } := by
  obtain ⟨id, hid⟩ := hcovers
  cases σ with
  | cancel batch =>
      rw [step, Scheduler.cancel_eq_cancelIf]
      rfl
  | cancelAll =>
      rw [step, Scheduler.cancelAll_eq_cancelIf]
      rfl
  | schedule | reach | advance | stopWorker => exact absurd hid Bool.false_ne_true

theorem pass_keeps {P : Timeline → Prop} (hlater : ∀ t, P t → P t.settle.later) (ms : Nat)
    (h : P t) : P (t.pass ms) := by
  induction ms generalizing t with
  | zero => exact h
  | succ ms ih => exact ih (hlater t h)

/-- What every operation keeps, and every moment that passes, is kept by a step. -/
theorem step_keeps {P : Timeline → Prop} (σ : Step) (h : P t)
    (hschedule : ∀ requests reference, σ = .schedule requests reference →
      P { t with scheduler := (t.scheduler.schedule requests reference).1 })
    (hcancel : (∃ id, σ.covers id) → P { t with scheduler := t.scheduler.cancelIf σ.covers })
    (hstop : σ = .stopWorker → P { t with accepting := false }) (hsettle : ∀ t, P t → P t.settle)
    (hlater : ∀ t, P t → P t.settle.later) : P (t.step σ) := by
  cases σ with
  | schedule requests reference => exact hschedule requests reference rfl
  | cancel batch =>
      have hcovers : ∃ id, (Step.cancel batch).covers id := ⟨batch, beq_self_eq_true batch⟩
      rw [step_of_covers hcovers]
      exact hcancel hcovers
  | cancelAll =>
      have hcovers : ∃ id, Step.cancelAll.covers id := ⟨0, rfl⟩
      rw [step_of_covers hcovers]
      exact hcancel hcovers
  | reach ms =>
      rw [step_reach]
      exact pass_keeps hlater ms h
  | advance ms =>
      rw [step_advance]
      exact hsettle _ (pass_keeps hlater ms h)
  | stopWorker => exact hstop rfl

/-- What has left the scheduler stays on record. -/
theorem departures_step (t : Timeline) (σ : Step) : t.departures <+: (t.step σ).departures := by
  have hsettle : ∀ u : Timeline, t.departures <+: u.departures →
      t.departures <+: u.settle.departures :=
    fun u hu => hu.trans (List.prefix_append u.departures _)
  apply step_keeps (P := fun u => t.departures <+: u.departures) σ (List.prefix_refl _)
  · exact fun _ _ _ => List.prefix_refl _
  · exact fun _ => List.prefix_refl _
  · exact fun _ => List.prefix_refl _
  · exact hsettle
  · exact hsettle

/-- Numbers that were given out to batches are not given out again. -/
theorem nextBatch_le_step (t : Timeline) (σ : Step) :
    t.scheduler.nextBatch ≤ (t.step σ).scheduler.nextBatch := by
  apply step_keeps (P := fun u => t.scheduler.nextBatch ≤ u.scheduler.nextBatch) σ (Nat.le_refl _)
  · exact fun _ _ _ => Nat.le_succ _
  · exact fun _ => Nat.le_refl _
  · exact fun _ => Nat.le_refl _
  · exact fun _ h => h
  · exact fun _ h => h

theorem nextBatch_le_run (t : Timeline) (steps : List Step) :
    t.scheduler.nextBatch ≤ (t.run steps).scheduler.nextBatch :=
  List.foldlRecOn (motive := fun u => t.scheduler.nextBatch ≤ u.scheduler.nextBatch) steps step
    (Nat.le_refl _) fun u hu σ _ => Nat.le_trans hu (nextBatch_le_step u σ)

/-- Whether the worker takes edges, and has taken all that have left the scheduler. -/
structure Taking (t : Timeline) : Prop where
  accepting : t.accepting
  taken : ∀ d ∈ t.departures, d.taken

theorem taking_empty : Taking {} where
  accepting := rfl
  taken := fun _ h => absurd h List.not_mem_nil

theorem Taking.step (h : t.Taking) {σ : Step} (hσ : σ ≠ .stopWorker) : (t.step σ).Taking := by
  have hsettle : ∀ u : Timeline, u.Taking → u.settle.Taking := by
    intro u hu
    refine ⟨hu.accepting, fun d hd => ?_⟩
    rcases mem_settle_departures.mp hd with hold | ⟨e, -, rfl⟩
    · exact hu.taken d hold
    · exact hu.accepting
  apply step_keeps σ h
  · exact fun _ _ _ => ⟨h.accepting, h.taken⟩
  · exact fun _ => ⟨h.accepting, h.taken⟩
  · exact fun hstop => absurd hstop hσ
  · exact hsettle
  · exact fun u hu => ⟨(hsettle u hu).accepting, (hsettle u hu).taken⟩

/-- As long as nobody stops the worker, it takes all edges. -/
theorem Taking.run (h : t.Taking) {steps : List Step} (hsteps : Step.stopWorker ∉ steps) :
    (t.run steps).Taking :=
  List.foldlRecOn steps Timeline.step h fun _ ht _ hσ =>
    ht.step fun hstop => hsteps (hstop ▸ hσ)

/-- What holds of every timeline: its scheduler is orderly, and all that has left it was numbered by
it before and lies in the past. -/
structure Lawful (t : Timeline) : Prop where
  orderly : t.scheduler.Orderly
  numbered : ∀ d ∈ t.departures,
    d.edge.batch < t.scheduler.nextBatch ∧ d.edge.pair < t.scheduler.nextPair
  past : ∀ d ∈ t.departures, d.time ≤ t.now

theorem lawful_empty : Lawful {} where
  orderly := Scheduler.orderly_empty
  numbered := fun _ h => absurd h List.not_mem_nil
  past := fun _ h => absurd h List.not_mem_nil

theorem Lawful.settle (h : t.Lawful) : t.settle.Lawful where
  orderly := (h.orderly.tick t.now t.accepting).retire
  numbered := by
    intro d hd
    rcases mem_settle_departures.mp hd with hold | ⟨e, he, rfl⟩
    · exact h.numbered d hold
    · obtain ⟨lane, hlane, hmem⟩ := Scheduler.mem_lane_of_mem_tick _ _ he
      obtain ⟨hbatch, hpair⟩ := h.orderly.owned lane hlane e hmem
      have hactive := h.orderly.lt_of_isActive (h.orderly.registered lane hlane)
      exact ⟨hbatch ▸ hactive, hpair⟩
  past := by
    intro d hd
    rcases mem_settle_departures.mp hd with hold | ⟨e, he, rfl⟩
    · exact h.past d hold
    · exact Int.le_refl _

theorem Lawful.settle_later (h : t.Lawful) : t.settle.later.Lawful where
  orderly := h.settle.orderly
  numbered := h.settle.numbered
  past := fun d hd => Int.le_trans (h.settle.past d hd) (Int.le_of_lt (Int.lt_succ _))

theorem Lawful.step (h : t.Lawful) (σ : Step) : (t.step σ).Lawful := by
  apply step_keeps σ h
  · rintro requests reference -
    refine ⟨h.orderly.schedule requests reference, ?_, h.past⟩
    intro d hd
    obtain ⟨hbatch, hpair⟩ := h.numbered d hd
    exact ⟨Nat.lt_succ_of_lt hbatch, Nat.lt_add_right _ hpair⟩
  · rintro -
    exact ⟨h.orderly.cancelIf σ.covers, h.numbered, h.past⟩
  · rintro -
    exact ⟨h.orderly, h.numbered, h.past⟩
  · exact fun t ht => ht.settle
  · exact fun t ht => ht.settle_later

theorem Lawful.run (h : t.Lawful) (steps : List Step) : (t.run steps).Lawful :=
  List.foldlRecOn steps Timeline.step h fun _ ht σ _ => ht.step σ

/-- What every operation keeps of lawful timelines, and every moment that passes, is kept by a step.
-/
theorem Lawful.step_keeps (h : t.Lawful) {P : Timeline → Prop} (σ : Step) (ht : P t)
    (hschedule : ∀ requests reference, σ = .schedule requests reference →
      P { t with scheduler := (t.scheduler.schedule requests reference).1 })
    (hcancel : (∃ id, σ.covers id) → P { t with scheduler := t.scheduler.cancelIf σ.covers })
    (hstop : σ = .stopWorker → P { t with accepting := false }) (hsettle : ∀ t, t.Lawful → P t → P t.settle)
    (hlater : ∀ t, t.Lawful → P t → P t.settle → P t.settle.later) : P (t.step σ) := by
  refine (Timeline.step_keeps (P := fun t => t.Lawful ∧ P t) σ ⟨h, ht⟩ ?_ ?_ ?_ ?_ ?_).2
  · exact fun requests reference hσ =>
      ⟨h.step (.schedule requests reference), hschedule requests reference hσ⟩
  · exact fun hcovers => ⟨step_of_covers hcovers ▸ h.step σ, hcancel hcovers⟩
  · exact fun hσ => ⟨h.step .stopWorker, hstop hσ⟩
  · exact fun t ht => ⟨ht.1.settle, hsettle t ht.1 ht.2⟩
  · exact fun t ht => ⟨ht.1.settle_later, hlater t ht.1 ht.2 (hsettle t ht.1 ht.2)⟩

/-- What single steps keep of lawful timelines is kept by a run of them. -/
theorem Lawful.run_keeps (h : t.Lawful) {P : Timeline → Prop} (allowed : Step → Prop)
    {steps : List Step} (hsteps : ∀ σ ∈ steps, allowed σ)
    (hstep : ∀ t σ, t.Lawful → allowed σ → P t → P (t.step σ)) (ht : P t) : P (t.run steps) :=
  (List.foldlRecOn (motive := fun t => Lawful t ∧ P t) steps Timeline.step ⟨h, ht⟩
    fun t ht σ hσ => ⟨ht.1.step σ, hstep t σ ht.1 (hsteps σ hσ) ht.2⟩).2

end Timeline

end CrowdPad
