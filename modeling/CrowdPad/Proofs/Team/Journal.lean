import CrowdPad.Proofs.Team.Ledger
import CrowdPad.Proofs.Team.Life

/-! Journals of teams. A journal runs a team step by step and keeps its ledger; what whatever can happen to
a ledger keeps holds along every run, however the parts of what is due are spread over time. -/

namespace CrowdPad

/-! ### What is not due yet -/

namespace Team

variable {t : Team} {now : Time}

/-- Before the next moment at which a team goes on, no edge of its lanes is due. -/
theorem lt_of_lt_nextDue? (h : t.scheduler.Orderly)
    (hnext : ∀ due, t.nextDue? = some due → now < due) {lane : Lane} (hlane : lane ∈ t.scheduler.lanes)
    {e : Edge} (he : e ∈ lane.edges) : now < e.fireAt := by
  have hplayback : ∀ due, t.playback.nextDue? = some due → now < due :=
    fun due hdue => lt_of_lt_min? hnext (List.mem_append_left _ (Option.mem_toList.mpr hdue))
  have hlanes : ∀ due, t.scheduler.nextDue? = some due → now < due :=
    fun due hdue => lt_of_lt_min? hplayback (List.mem_append_left _ (Option.mem_toList.mpr hdue))
  have hsorted := h.sorted lane hlane
  cases hedges : lane.edges with
  | nil => exact absurd (hedges ▸ he) List.not_mem_nil
  | cons first rest =>
      have hdue : lane.due? = some first.fireAt := by rw [Lane.due?, hedges]; rfl
      have hfirst : now < first.fireAt :=
        lt_of_lt_min? hlanes (List.mem_filterMap.mpr ⟨lane, hlane, hdue⟩)
      rw [hedges] at hsorted he
      rcases List.mem_cons.mp he with rfl | hrest
      · exact hfirst
      · exact Int.lt_of_lt_of_le hfirst (List.rel_of_pairwise_cons hsorted hrest)

end Team

/-! ### Steps of ledgers -/

namespace Ledger.Keeps

variable {P : Time → Ledger → Prop} (hkeeps : Keeps P) {now : Time} {l : Ledger}

include hkeeps

theorem shift (h : P now l) {playback : Playback} (hshifts : l.playback.Shifts playback) :
    P now { l with playback } := by
  cases hshifts with
  | same => exact h
  | scheduled requests reference => exact hkeeps.schedule requests reference h
  | cancelled which => exact hkeeps.cancelIf which h

end Ledger.Keeps

/-! ### Journals -/

/-- A team on its host, with what its worker was handed and what it has worked off. -/
structure Journal where
  station : Station
  handed : List Edge := []
  worked : List (Time × Edge) := []

namespace Journal

def ledger (j : Journal) : Ledger where
  playback := j.station.team.playback
  device := j.station.host.device
  handed := j.handed
  worked := j.worked

/-- What is under way once what is due was handed over, and a random verb may have been played. -/
def played (now : Time) (j : Journal) : Ledger :=
  { j.ledger.fire now with playback := ((j.station.team.fire now).1.tickRandom now).1.playback }

/-- What is under way once the edges that a random verb has due were handed over too. -/
def due (now : Time) (j : Journal) : Ledger := (j.played now).fire now

def settle (now : Time) (j : Journal) : Journal where
  station := j.station.settle now
  handed := (j.due now).handed
  worked := ((j.due now).work now j.station.host.network).worked

def nextDue? (j : Journal) : Option Time := j.station.nextDue?

/-- Goes on at another moment. -/
def moveTo (now : Time) (j : Journal) : Journal :=
  { j with station := { j.station with host := { j.station.host with now } } }

def step (j : Journal) : TeamStep → Journal
  | .fire => { j with
      station := j.station.step .fire
      handed := (j.ledger.fire j.station.host.now).handed }
  | .work => { j with
      station := j.station.step .work
      worked := (j.ledger.work j.station.host.now j.station.host.network).worked }
  | .wait ms =>
    let goal := j.station.host.now + ms
    let (now, j) := Clock.wait settle nextDue? (fun _ => false) goal j.station.host.now j
    j.moveTo now
  | .advance ms => Clock.advance settle nextDue? (j.station.host.now + ms) j.station.host.now j
  | σ => { j with station := j.station.step σ }

def run (j : Journal) (steps : List TeamStep) : Journal := steps.foldl step j

variable (j : Journal)

/-- A journal follows its team. -/
theorem station_step (σ : TeamStep) : (j.step σ).station = j.station.step σ := by
  have hsettle : ∀ now (j : Journal) (s : Station), j.station = s →
      (j.settle now).station = s.settle now := by
    rintro now j _ rfl
    rfl
  have hnext : ∀ (j : Journal) (s : Station), j.station = s → j.nextDue? = s.nextDue? := by
    rintro j _ rfl
    rfl
  cases σ with
  | wait ms =>
      obtain ⟨hnow, hstation⟩ := Clock.wait_related (R := fun (j : Journal) s => j.station = s)
        hsettle hnext (j.station.host.now + ms) j.station.host.now (s := j) rfl
      exact congrArg₂ (fun now s => { s with host := { s.host with now } : Station }) hnow hstation
  | advance ms =>
      exact Clock.advance_related (R := fun (j : Journal) s => j.station = s) hsettle hnext _ _ rfl
  | _ => rfl

theorem station_run (steps : List TeamStep) : (j.run steps).station = j.station.run steps := by
  induction steps generalizing j with
  | nil => rfl
  | cons σ rest ih =>
      refine (ih (j.step σ)).trans ?_
      rw [station_step]
      rfl

/-! ### What a step keeps -/

theorem ledger_settle (now : Time) :
    (j.settle now).ledger = ((j.due now).work now j.station.host.network).retire :=
  Ledger.ext rfl (Host.notifyAll_device ..) rfl rfl

theorem ledger_fire : (j.step .fire).ledger = j.ledger.fire j.station.host.now :=
  Ledger.ext rfl (Host.notifyAll_device ..) rfl rfl

theorem ledger_work : (j.step .work).ledger = j.ledger.work j.station.host.now j.station.host.network :=
  Ledger.ext rfl (Host.notifyAll_device ..) rfl rfl

theorem ledger_retire : (j.step .retire).ledger = j.ledger.retire :=
  Ledger.ext rfl (Host.notifyAll_device ..) rfl rfl

/-- Steps that take no time leave the books to themselves. -/
theorem step_of_not_timed {σ : TeamStep} (hσ : σ.isTimed = false) :
    j.step σ = { j with station := j.station.step σ } := by
  cases σ with
  | fire | work | retire | wait ms | advance ms => cases hσ
  | _ => rfl

theorem ledger_of_not_timed {σ : TeamStep} (hσ : σ.isTimed = false) :
    (j.step σ).ledger = { j.ledger with playback := (j.station.step σ).team.playback } := by
  rw [step_of_not_timed j hσ]
  exact Ledger.ext rfl (j.station.shifted_step hσ).device rfl rfl

variable {j} {P : Time → Ledger → Prop}

section Keeps

variable (hkeeps : Ledger.Keeps P)

include hkeeps

theorem keeps_played (now : Time) (h : P now j.ledger) : P now (j.played now) :=
  hkeeps.shift (hkeeps.fire h) (Team.shifts_tickRandom (j.station.team.fire now).1 now)

theorem keeps_due (now : Time) (h : P now j.ledger) : P now (j.due now) :=
  hkeeps.fire (keeps_played hkeeps now h)

theorem keeps_settle (now : Time) (h : P now j.ledger) : P now (j.settle now).ledger := by
  rw [ledger_settle]
  exact hkeeps.retire (hkeeps.work j.station.host.network (keeps_due hkeeps now h))

/-- No edge that waits for a team that was settled is due before the clock stops. -/
theorem stop_le_of_mem_waiting (now goal : Time) (h : P now j.ledger) {e : Edge}
    (he : e ∈ (j.settle now).ledger.waiting) : Clock.stop now goal (j.settle now).nextDue? ≤ e.fireAt := by
  have hlate : now < e.fireAt := by
    rw [ledger_settle] at he
    exact Ledger.lt_of_mem_waiting_fire (hkeeps.orderly (keeps_played hkeeps now h)) he
  by_contra hsooner
  rw [Clock.stop] at hsooner
  obtain ⟨lane, hlane, hmem⟩ := Ledger.mem_waiting.mp he
  have hrest : e.fireAt < e.fireAt := by
    refine Team.lt_of_lt_nextDue? (hkeeps.orderly (keeps_settle hkeeps now h)) ?_ hlane hmem
    intro due hdue
    have hnext : (j.settle now).nextDue? = some due := hdue
    rw [hnext, Option.getD_some] at hsooner
    lia
  exact Int.lt_irrefl _ hrest

theorem keeps_stop (now goal : Time) (h : P now j.ledger) :
    P (Clock.stop now goal (j.settle now).nextDue?) (j.settle now).ledger :=
  hkeeps.later (keeps_settle hkeeps now h) fun _ he => stop_le_of_mem_waiting hkeeps now goal h he

theorem keeps_wait (goal : Time) (h : P j.station.host.now j.ledger) :
    P (Clock.wait settle nextDue? (fun _ => false) goal j.station.host.now j).1
      (Clock.wait settle nextDue? (fun _ => false) goal j.station.host.now j).2.ledger := by
  rcases Clock.wait_cases (P := fun now (j : Journal) => P now j.ledger)
    (Q := fun now (j : Journal) => P now j.ledger) (fun now _ h => keeps_settle hkeeps now h)
    (fun now goal _ h => keeps_stop hkeeps now goal h) (fun _ _ h => h) (fun _ => false) goal
    j.station.host.now h with ⟨hwaited, -⟩ | ⟨hwaited, -⟩
  · rw [hwaited]
    exact h
  · exact hwaited

theorem keeps_advance (ms : Nat) (h : P j.station.host.now j.ledger) :
    P (j.step (.advance ms)).station.host.now (j.step (.advance ms)).ledger := by
  let goal := j.station.host.now + (ms : Int)
  let waited := Clock.wait settle nextDue? (fun _ => false) goal j.station.host.now j
  have hgoal : waited.1 = goal := Clock.wait_goal (Int.le_add_of_nonneg_right (Int.natCast_nonneg ms)) j
  have hnow : (waited.2.settle goal).station.host.now = goal := Host.notifyAll_now ..
  have hwaited : P waited.1 waited.2.ledger := keeps_wait hkeeps goal h
  rw [hgoal] at hwaited
  show P (waited.2.settle goal).station.host.now (waited.2.settle goal).ledger
  rw [hnow]
  exact keeps_settle hkeeps goal hwaited

/-- Whatever can happen to a ledger happens in the steps of its journal. -/
theorem keeps_step (h : P j.station.host.now j.ledger) (σ : TeamStep) :
    P (j.step σ).station.host.now (j.step σ).ledger := by
  cases hσ : σ.isTimed with
  | false =>
      have hshifted := j.station.shifted_step hσ
      have hnow : (j.step σ).station.host.now = j.station.host.now := by
        rw [station_step]
        exact hshifted.now
      rw [hnow, ledger_of_not_timed j hσ]
      exact hkeeps.shift h hshifted.playback
  | true =>
      cases σ with
      | fire =>
          have hnow : (j.step .fire).station.host.now = j.station.host.now := Host.notifyAll_now ..
          rw [hnow, ledger_fire]
          exact hkeeps.fire h
      | work =>
          have hnow : (j.step .work).station.host.now = j.station.host.now := Host.notifyAll_now ..
          rw [hnow, ledger_work]
          exact hkeeps.work _ h
      | retire =>
          have hnow : (j.step .retire).station.host.now = j.station.host.now := Host.notifyAll_now ..
          rw [hnow, ledger_retire]
          exact hkeeps.retire h
      | wait ms => exact keeps_wait hkeeps _ h
      | advance ms => exact keeps_advance hkeeps ms h
      | _ => cases hσ

theorem keeps_run (h : P j.station.host.now j.ledger) (steps : List TeamStep) :
    P (j.run steps).station.host.now (j.run steps).ledger :=
  List.foldlRecOn steps step (motive := fun later => P later.station.host.now later.ledger) h
    fun _ hlater σ _ => keeps_step hkeeps hlater σ

end Keeps

/-- A team that starts has nothing under way. -/
theorem sound_start {host : Host} {seed : Nat} {config : TeamConfig} {verbs : VerbTable}
    {telemetry : Option Telemetry} {s : Station}
    (hstart : Station.start host seed config verbs telemetry = .ok s)
    (hhere : config.target.mode = .here) (hfresh : host.device.inputs = []) :
    ({ station := s } : Journal).ledger.Sound config.target s.host.now := by
  obtain ⟨team, notices, hteam, rfl⟩ := Station.exists_of_start_eq_ok hstart
  have hplayback : team.playback = { worker := .here { target := config.target } } := by
    rw [Team.start_playback hteam, Worker.ofTarget, hhere]
  have hdevice : (host.notifyAll telemetry notices).device.inputs = [] := by
    rw [Host.notifyAll_device, hfresh]
  have hnew := Ledger.sound_new config.target (host.notifyAll telemetry notices).now hdevice
  rw [← hplayback] at hnew
  exact hnew

end Journal

end CrowdPad
