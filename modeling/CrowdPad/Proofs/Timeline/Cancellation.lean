import CrowdPad.Proofs.Scheduler.Cancelled
import CrowdPad.Proofs.Timeline.Firing
import CrowdPad.Proofs.Timeline.Only

/-! Cancelling. A cancelled batch presses no key any more but releases each key that it pressed, at
the moment that was set; cancelling it again changes nothing, and cancelling it alone changes nothing
about other batches. -/

namespace CrowdPad.Timeline

variable {t u : Timeline} {id : Nat}

/-- The presses of a batch that have left their lane. -/
def presses (t : Timeline) (id : Nat) : List Edge :=
  t.departed fun e => e.batch == id && e.isPress

/-- The edges of a pair that have left their lane, each with the moment at which it did. -/
def stamps (t : Timeline) (pair : Nat) : List (Time × Edge) :=
  (t.departures.filter fun d => d.edge.inPair pair).map fun d => (d.time, d.edge)

/-- A batch that was scheduled and is cancelled, or over. -/
structure Spent (id : Nat) (t : Timeline) : Prop where
  known : id < t.scheduler.nextBatch
  cancelled : ∀ b ∈ t.scheduler.batches, b.id = id → b.cancelled

/-! ### A cancelled batch stays cancelled -/

theorem spent_of_covers {σ : Step} (hknown : id < t.scheduler.nextBatch) (hcovers : σ.covers id) :
    (t.step σ).Spent id := by
  rw [step_of_covers ⟨id, hcovers⟩]
  refine ⟨hknown, ?_⟩
  intro b hb hid
  obtain ⟨before, -, rfl⟩ := List.mem_map.mp hb
  by_cases hbefore : σ.covers before.id
  · rw [if_pos hbefore]
  · rw [if_neg hbefore] at hid
    exact absurd (hid ▸ hcovers) hbefore

theorem Spent.settle (hspent : t.Spent id) : t.settle.Spent id where
  known := hspent.known
  cancelled := by
    intro b hb hid
    rw [Timeline.settle, settleAt_scheduler, Scheduler.retire_batches] at hb
    have hticked := (List.mem_filter.mp hb).1
    rw [Scheduler.tick_batches] at hticked
    obtain ⟨before, hbefore, rfl⟩ := List.mem_map.mp hticked
    exact hspent.cancelled before hbefore hid

theorem Spent.step (hspent : t.Spent id) (σ : Step) : (t.step σ).Spent id := by
  apply step_keeps σ hspent
  · rintro requests reference -
    refine ⟨Nat.lt_succ_of_lt hspent.known, ?_⟩
    intro b hb hid
    rcases List.mem_append.mp hb with hold | hnew
    · exact hspent.cancelled b hold hid
    · rw [List.mem_singleton.mp hnew] at hid
      exact absurd hid (Nat.ne_of_gt hspent.known)
  · rintro -
    refine ⟨hspent.known, ?_⟩
    intro b hb hid
    obtain ⟨before, hbefore, rfl⟩ := List.mem_map.mp hb
    by_cases hcovers : σ.covers before.id
    · rw [if_pos hcovers]
    · rw [if_neg hcovers] at hid ⊢
      exact hspent.cancelled before hbefore hid
  · exact fun _ => ⟨hspent.known, hspent.cancelled⟩
  · exact fun t ht => ht.settle
  · exact fun t ht => ⟨ht.settle.known, ht.settle.cancelled⟩

/-! ### No press -/

/-- A lane of a cancelled batch hands over releases only. -/
theorem Spent.presses_settle (hspent : t.Spent id) (h : t.Lawful) :
    t.settle.presses id = t.presses id := by
  have hnone : ((t.scheduler.tick t.now t.accepting).2.filter
      fun e => e.batch == id && e.isPress) = [] := by
    rw [List.filter_eq_nil_iff]
    intro e he hpress
    rw [Bool.and_eq_true, beq_iff_eq, Edge.isPress, decide_eq_true_iff] at hpress
    have hrelease := h.orderly.release_of_mem_tick
      (fun b hb hid => hspent.cancelled b hb (hid.trans hpress.1)) he
    rw [hpress.2] at hrelease
    exact Transition.noConfusion hrelease
  rw [presses, departed_settle, hnone, List.append_nil, presses]

theorem Spent.presses_step (hspent : t.Spent id) (h : t.Lawful) (σ : Step) :
    (t.step σ).presses id = t.presses id := by
  refine (h.step_keeps (P := fun u => u.Spent id ∧ u.presses id = t.presses id) σ ⟨hspent, rfl⟩
    ?_ ?_ ?_ ?_ ?_).2
  · rintro requests reference rfl
    exact ⟨hspent.step (.schedule requests reference), rfl⟩
  · exact fun hcovers => ⟨step_of_covers hcovers ▸ hspent.step σ, rfl⟩
  · exact fun _ => ⟨hspent.step .stopWorker, rfl⟩
  · exact fun u hu ⟨hspent, hsame⟩ => ⟨hspent.settle, (hspent.presses_settle hu).trans hsame⟩
  · exact fun u _ _ ⟨hspent, hsame⟩ => ⟨⟨hspent.known, hspent.cancelled⟩, hsame⟩

theorem Spent.presses_run (hspent : t.Spent id) (h : t.Lawful) (steps : List Step) :
    (t.run steps).presses id = t.presses id := by
  refine (h.run_keeps (P := fun u => u.Spent id ∧ u.presses id = t.presses id) (fun _ => True)
    (fun _ _ => trivial) ?_ ⟨hspent, rfl⟩).2
  intro u σ hu _ ⟨hspent, hsame⟩
  exact ⟨hspent.step σ, (hspent.presses_step hu σ).trans hsame⟩

theorem presses_of_covers {σ : Step} (hcovers : σ.covers id) : (t.step σ).presses id = t.presses id := by
  rw [step_of_covers ⟨id, hcovers⟩]
  rfl

/-! ### Cancelling again, and cancelling something else -/

/-- A cancellation says nothing about a batch that it does not cover, or that is cancelled. -/
theorem only_of_cancel {σ : Step} (hcancels : ∃ batch, σ.covers batch)
    (hnothing : σ.covers id = false ∨ t.Spent id) : (t.step σ).only id = t.only id := by
  have hsame : (t.scheduler.only id).cancelIf σ.covers = t.scheduler.only id := by
    apply Scheduler.cancelIf_eq_self
    intro b hb hcovers
    obtain ⟨hmem, hid⟩ := List.mem_filter.mp hb
    rw [beq_iff_eq] at hid
    rcases hnothing with hother | hspent
    · rw [hid, hother] at hcovers
      exact absurd hcovers Bool.false_ne_true
    · exact hspent.cancelled b hmem hid
  rw [step_of_covers hcancels, only, ← Scheduler.cancelIf_only, hsame, only]

/-- Leaving out later cancellations of a cancelled batch changes nothing about it. -/
theorem Spent.run_only_filter (hspent : t.Spent id) (ht : t.Lawful) (hu : u.Lawful)
    (hsame : t.only id = u.only id) (steps : List Step) :
    (t.run steps).only id = (u.run (steps.filter fun σ => !σ.covers id)).only id := by
  induction steps generalizing t u with
  | nil => exact hsame
  | cons σ rest ih =>
      rw [run_cons]
      cases hcovers : σ.covers id with
      | true =>
          rw [List.filter_cons_of_neg (by simp [hcovers])]
          have honly := only_of_cancel ⟨id, hcovers⟩ (Or.inr hspent)
          exact ih (hspent.step σ) (ht.step σ) hu (honly.trans hsame)
      | false =>
          rw [List.filter_cons_of_pos (by simp [hcovers]), run_cons]
          exact ih (hspent.step σ) (ht.step σ) (hu.step σ) (ht.step_only_congr hu hsame σ)

/-- Leaving out later cancellations of a cancelled batch alone changes nothing at all. -/
theorem Spent.run_filter_cancel (hspent : t.Spent id) (steps : List Step) :
    t.run (steps.filter (· ≠ .cancel id)) = t.run steps := by
  induction steps generalizing t with
  | nil => rfl
  | cons σ rest ih =>
      by_cases hσ : σ = .cancel id
      · have hcancel : t.step (.cancel id) = t := by
          rw [Timeline.step, Scheduler.cancel_eq_cancelIf, Scheduler.cancelIf_eq_self]
          exact fun b hb hid => hspent.cancelled b hb (beq_iff_eq.mp hid)
        rw [List.filter_cons_of_neg (by simp [hσ]), run_cons, hσ, hcancel]
        exact ih hspent
      · rw [List.filter_cons_of_pos (by simp [hσ]), run_cons, run_cons]
        exact ih (hspent.step σ)

/-! ### Releases -/

/-- Behind a cancellation of its batch a request whose press has left its lane is released at the
moment that was set, and of others nothing leaves. -/
theorem Bears.stamps_of_covers {press release : Edge} {start : Time}
    (hbears : t.Bears press release start) (h : t.Lawful) {σ : Step}
    (hcovers : σ.covers press.batch) (steps : List Step) (ms : Nat) :
    (((t.step σ).run steps).step (.advance ms)).stamps press.pair =
      if press ∈ t.departed (Edge.inPair press.pair) then
        ([press, release].filter fun e => e.fireAt ≤ ((t.step σ).run steps).now + ms).map
          fun e => (max start e.fireAt, e)
      else [] := by
  have hrun := (hbears.step h σ).run (h.step σ) steps
  have hlawful := (h.step σ).run steps
  have hcourse := hbears.course_run_of_covers h hcovers (steps ++ [.advance ms])
  rw [run_concat] at hcourse
  refine (hrun.follows.stamps_advance hlawful (Scheduler.kindred_inPair _) ms).trans ?_
  rw [hcourse]
  by_cases hpress : press ∈ t.departed (Edge.inPair press.pair)
  · rw [if_pos hpress, if_pos hpress]
  · rw [if_neg hpress, if_neg hpress]
    rfl

/-- **Cancellation.** Once a batch is cancelled it presses no key. Each of its requests whose key was
pressed before is released at the moment that was set, and the others do nothing; a worker that is not
stopped takes all of it. Cancelling it again, in whatever way and however often, changes nothing about
it, and nothing at all where it is cancelled alone; then other batches also do what they do without
the cancellation. -/
theorem cancellation (early mid after : List Step) (requests : List Request) (reference : Time)
    (c : Step) (hcovers : c.covers (run {} early).scheduler.nextBatch) :
    let start := run {} early
    let batch := start.scheduler.nextBatch
    let t := (start.step (.schedule requests reference)).run mid
    let u := (t.step c).run after
    u.presses batch = t.presses batch ∧
      (∀ i, ∀ hi : i < requests.length, ∀ ms : Nat,
        let pair := start.scheduler.nextPair + i
        let press := requests[i].pressEdge batch pair reference
        let release := requests[i].releaseEdge batch pair reference
        (u.step (.advance ms)).stamps pair =
          if press ∈ t.departed (Edge.inPair pair) then
            ([press, release].filter fun e => e.fireAt ≤ u.now + ms).map
              fun e => (max start.now e.fireAt, e)
          else []) ∧
      (Step.stopWorker ∉ early ++ mid ++ after → ∀ d ∈ u.departures, d.taken) ∧
      ((t.step c).run (after.filter fun σ => !σ.covers batch)).only batch = u.only batch ∧
      (c = .cancel batch → (t.step c).run (after.filter (· ≠ c)) = u) ∧
      (c = .cancel batch → ∀ other, other ≠ batch → (t.run after).only other = u.only other) := by
  intro start batch t u
  have hstart : start.Lawful := lawful_empty.run early
  have hscheduled : (start.step (.schedule requests reference)).Lawful := hstart.step _
  have ht : t.Lawful := hscheduled.run mid
  have hc : (t.step c).Lawful := ht.step c
  have hknown : batch < t.scheduler.nextBatch :=
    Nat.lt_of_lt_of_le (Nat.lt_succ_self batch)
      (nextBatch_le_run (start.step (.schedule requests reference)) mid)
  have hspent : (t.step c).Spent batch := spent_of_covers hknown hcovers
  refine ⟨?_, ?_, ?_, ?_, ?_, ?_⟩
  · exact (hspent.presses_run hc after).trans (presses_of_covers hcovers)
  · intro i hi ms pair press release
    have hbears : t.Bears press release start.now :=
      (hstart.bears_schedule requests reference hi).run hscheduled mid
    exact hbears.stamps_of_covers ht hcovers after ms
  · intro hstop
    rw [List.mem_append, List.mem_append, not_or, not_or] at hstop
    have hcancels : c ≠ .stopWorker := by
      rintro rfl
      exact Bool.false_ne_true hcovers
    exact (((((taking_empty.run hstop.1.1).step Step.noConfusion).run hstop.1.2).step
      hcancels).run hstop.2).taken
  · exact (hspent.run_only_filter hc hc rfl after).symm
  · rintro rfl
    exact hspent.run_filter_cancel after
  · rintro rfl other hother
    have hfar : (Step.cancel batch).covers other = false := beq_eq_false_iff_ne.mpr hother
    have honly := only_of_cancel (t := t) ⟨batch, hcovers⟩ (Or.inl hfar)
    exact ht.run_only_congr hc honly.symm after

/-- A tap that is cancelled twice while its key is down. -/
theorem cancellation_of_tap :
    (run {} [.schedule [tap] 0, .advance 10, .cancelAll, .cancelAll, .advance 45]).stamps 0 =
      [(5, tap.pressEdge 1 0 0), (55, tap.releaseEdge 1 0 0)] :=
  ((cancellation [] [.advance 10] [.cancelAll] [tap] 0 .cancelAll rfl).2.1 0 (by decide) 45).trans
    (by cbv)

/-- Cancelling all batches again does change what is scheduled in between. -/
theorem cancelAll_again_covers_later_batch :
    (run {} [.schedule [tap] 0, .cancelAll, .schedule [tap] 0, .cancelAll, .advance 10]).departures ≠
      (run {} [.schedule [tap] 0, .cancelAll, .schedule [tap] 0, .advance 10]).departures := by
  have hagain : (run {} [.schedule [tap] 0, .cancelAll, .schedule [tap] 0, .cancelAll,
      .advance 10]).departures = [] := by cbv
  have honce : (run {} [.schedule [tap] 0, .cancelAll, .schedule [tap] 0,
      .advance 10]).departures =
        [{ time := 5, edge := tap.pressEdge 2 1 0, taken := true }] := by cbv
  rw [hagain, honce]
  exact (List.cons_ne_nil _ _).symm

end CrowdPad.Timeline
