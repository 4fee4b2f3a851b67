import CrowdPad.Proofs.Scheduler.Only
import CrowdPad.Proofs.Timeline.Basic

/-! One batch on a timeline. What leaves of a batch, and how it ends, is the same whatever becomes of
the others: two timelines that agree on a batch agree on it behind every step. -/

namespace CrowdPad.Timeline

variable {t u : Timeline}

/-- What a timeline says about one batch. -/
def only (t : Timeline) (id : Nat) : Timeline :=
  { t with
    scheduler := t.scheduler.only id
    departures := t.departures.filter fun d => d.edge.batch == id
    reports := t.reports.filter fun report => report.2.id == id }

theorem only_only (t : Timeline) (id : Nat) : (t.only id).only id = t.only id := by
  simp only [only, Scheduler.only_only, List.filter_filter, Bool.and_self]

theorem Lawful.settle_only (h : t.Lawful) (id : Nat) : (t.only id).settle = t.settle.only id := by
  have htick := h.orderly.tick_only id t.now t.accepting
  have hretire := Scheduler.retire_only (t.scheduler.tick t.now t.accepting).1 id
  rw [Timeline.settle, settleAt, Timeline.settle, settleAt, only, only, htick]
  simp only [hretire, List.filter_append, List.filter_map]
  rfl

theorem Lawful.pass_only (h : t.Lawful) (id ms : Nat) :
    (t.only id).pass ms = (t.pass ms).only id := by
  induction ms generalizing t with
  | zero => rfl
  | succ ms ih =>
      rw [pass, pass, ← ih h.settle_later, h.settle_only]
      rfl

/-- A step does about a batch what it does where there is no other. -/
theorem Lawful.step_only (h : t.Lawful) (id : Nat) (σ : Step) :
    ((t.only id).step σ).only id = (t.step σ).only id := by
  by_cases hcovers : ∃ batch, σ.covers batch
  · rw [step_of_covers hcovers, step_of_covers hcovers]
    simp only [only, Scheduler.cancelIf_only, Scheduler.only_only, List.filter_filter,
      Bool.and_self]
  · cases σ with
    | schedule requests reference =>
        simp only [only, Timeline.step, Scheduler.schedule_only, List.filter_filter, Bool.and_self]
    | cancel batch => exact absurd ⟨batch, beq_self_eq_true batch⟩ hcovers
    | cancelAll => exact absurd ⟨0, rfl⟩ hcovers
    | reach ms => rw [step_reach, step_reach, h.pass_only, only_only]
    | advance ms =>
        rw [step_advance, step_advance, h.pass_only]
        have hreach : (t.pass ms).Lawful := step_reach t ms ▸ h.step (.reach ms)
        rw [hreach.settle_only, only_only]
    | stopWorker => exact only_only (t.step .stopWorker) id

theorem Lawful.step_only_congr (ht : t.Lawful) (hu : u.Lawful) {id : Nat}
    (hsame : t.only id = u.only id) (σ : Step) : (t.step σ).only id = (u.step σ).only id := by
  rw [← ht.step_only, hsame, hu.step_only]

/-- Timelines that agree on a batch agree on it behind every run. -/
theorem Lawful.run_only_congr (ht : t.Lawful) (hu : u.Lawful) {id : Nat}
    (hsame : t.only id = u.only id) (steps : List Step) :
    (t.run steps).only id = (u.run steps).only id := by
  induction steps generalizing t u with
  | nil => exact hsame
  | cons σ rest ih => exact ih (ht.step σ) (hu.step σ) (ht.step_only_congr hu hsame σ)

end CrowdPad.Timeline
