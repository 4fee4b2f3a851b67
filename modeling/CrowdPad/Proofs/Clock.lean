import CrowdPad.Clock

/-! Time without gaps. The clock stops only where a system says that it goes on by itself. A system
that truly does nothing in between ends up as if it had been settled at every single moment, so that
statements about time can be proved moment by moment. -/

namespace CrowdPad.Clock

variable {σ : Type}

/-- Settles a system at a moment and at those behind it, so many in all. -/
def everyMoment (settle : Time → σ → σ) (now : Time) : Nat → σ → σ
  | 0, s => s
  | ms + 1, s => everyMoment settle (now + 1) ms (settle now s)

/-- Whether nothing happens to a settled system before it says that it goes on. -/
def Idles (settle : Time → σ → σ) (next? : σ → Option Time) : Prop :=
  ∀ now later s, (∀ due, next? (settle now s) = some due → later < due) →
    settle later (settle now s) = settle now s

variable {settle : Time → σ → σ} {next? : σ → Option Time}

/-- Moments at which a system does not change may be left out. -/
theorem everyMoment_skip (now : Time) (skipped ms : Nat) (s : σ)
    (hidle : ∀ later, now ≤ later → later < now + skipped → settle later s = s) :
    everyMoment settle now (skipped + ms) s = everyMoment settle (now + skipped) ms s := by
  induction skipped generalizing now with
  | zero => rw [Nat.zero_add, Int.natCast_zero, Int.add_zero]
  | succ skipped ih =>
      have hnow : settle now s = s := hidle now (Int.le_refl now) (by lia)
      have hrest : ∀ later, now + 1 ≤ later → later < now + 1 + skipped → settle later s = s :=
        fun later hlow hhigh => hidle later (by lia) (by lia)
      rw [Nat.succ_add_eq_add_succ, Nat.add_succ, everyMoment, hnow, ih (now + 1) hrest]
      congr 1
      lia

/-! ### A part of a system -/

section Part

variable {τ : Type} {P : σ → Prop} {view : σ → τ} {settle' : Time → τ → τ} {next?' : τ → Option Time}
  (hsettle : ∀ now s, P s → P (settle now s) ∧ view (settle now s) = settle' now (view s))
  (hnext : ∀ s, P s → ∀ due, next?' (view s) = some due →
    ∃ sooner, next? s = some sooner ∧ sooner ≤ due)
  (hidles : Idles settle' next?')

include hsettle hnext hidles

theorem settle_of_lt_stop (now goal : Time) {s : σ} (h : P s) (later : Time) (hlow : now + 1 ≤ later)
    (hhigh : later < stop now goal (next? (settle now s))) :
    settle' later (settle' now (view s)) = settle' now (view s) := by
  obtain ⟨hkept, hview⟩ := hsettle now s h
  apply hidles
  intro due hdue
  rw [← hview] at hdue
  obtain ⟨sooner, hsooner, hle⟩ := hnext _ hkept due hdue
  rw [hsooner, stop] at hhigh
  simp only [Option.getD_some] at hhigh
  lia

/-- Wherever else the clock stops, a part of a system waits until a goal as if it were settled at every
moment before it. -/
theorem wait_part (now : Time) (ms : Nat) {s : σ} (h : P s) :
    (wait settle next? (fun _ => false) (now + ms) now s).1 = now + ms ∧
      P (wait settle next? (fun _ => false) (now + ms) now s).2 ∧
      view (wait settle next? (fun _ => false) (now + ms) now s).2 =
        everyMoment settle' now ms (view s) := by
  induction ms using Nat.strongRecOn generalizing now s with
  | ind ms ih =>
      rw [wait]
      cases ms with
      | zero =>
          rw [if_pos (by simp)]
          exact ⟨(Int.add_zero now).symm, h, rfl⟩
      | succ ms =>
          obtain ⟨hkept, hview⟩ := hsettle now s h
          have hgoal : ¬now + ((ms + 1 : Nat) : Int) ≤ now := by lia
          have hstop := lt_stop now (now + (ms + 1 : Nat)) (next? (settle now s))
          have hbound : stop now (now + (ms + 1 : Nat)) (next? (settle now s)) ≤
              now + (ms + 1 : Nat) := by
            rw [stop]
            lia
          obtain ⟨skipped, hskipped⟩ := Int.le.dest (Int.add_one_le_of_lt hstop)
          obtain ⟨rest, hrest⟩ := Int.le.dest hbound
          have hms : ms = skipped + rest := by lia
          have hjump := everyMoment_skip (now + 1) skipped rest (settle' now (view s))
            fun later hl hh =>
              settle_of_lt_stop hsettle hnext hidles now (now + (ms + 1 : Nat)) h later hl (by lia)
          have hgo := ih rest (by lia) (stop now (now + (ms + 1 : Nat)) (next? (settle now s))) hkept
          simp only [Bool.false_or, hgoal, decide_false, Bool.false_eq_true, if_false]
          rw [hrest] at hgo
          refine ⟨hgo.1, hgo.2.1, ?_⟩
          rw [hgo.2.2, hview, everyMoment, hms, hjump, ← hms, hskipped]

theorem advance_part (now : Time) (ms : Nat) {s : σ} (h : P s) :
    P (advance settle next? (now + ms) now s) ∧ view (advance settle next? (now + ms) now s) =
      settle' (now + ms) (everyMoment settle' now ms (view s)) := by
  obtain ⟨-, hkept, hview⟩ := wait_part hsettle hnext hidles now ms h
  rw [← hview]
  exact hsettle _ _ hkept

end Part

/-- Waiting until a goal is settling at every moment before it. -/
theorem wait_eq_everyMoment (hidles : Idles settle next?) (now : Time) (ms : Nat) (s : σ) :
    wait settle next? (fun _ => false) (now + ms) now s =
      (now + ms, everyMoment settle now ms s) := by
  have hsettle : ∀ now s, True → True ∧ id (settle now s) = settle now (id s) := fun _ _ h => ⟨h, rfl⟩
  have hnext : ∀ s, True → ∀ due, next? (id s) = some due →
      ∃ sooner, next? s = some sooner ∧ sooner ≤ due :=
    fun _ _ due hdue => ⟨due, hdue, Int.le_refl due⟩
  obtain ⟨hgoal, -, hview⟩ :=
    wait_part (P := fun _ => True) hsettle hnext hidles now ms (s := s) trivial
  exact Prod.ext hgoal hview

/-- Letting time pass is settling at every moment of it, the last one included. -/
theorem advance_eq_everyMoment (hidles : Idles settle next?) (now : Time) (ms : Nat) (s : σ) :
    advance settle next? (now + ms) now s = settle (now + ms) (everyMoment settle now ms s) := by
  rw [advance, wait_eq_everyMoment hidles]

/-! ### What settling keeps -/

/-- What settling keeps is kept while time passes. -/
theorem wait_keeps {P : σ → Prop} (hsettle : ∀ now s, P s → P (settle now s)) (done : σ → Bool)
    (goal now : Time) {s : σ} (h : P s) : P (wait settle next? done goal now s).2 := by
  fun_induction wait settle next? done goal now s with
  | case1 => exact h
  | case2 now s _ s' hdone => exact hsettle now s h
  | case3 now s _ s' _ ih => exact ih (hsettle now s h)

theorem advance_keeps {P : σ → Prop} (hsettle : ∀ now s, P s → P (settle now s))
    (goal now : Time) {s : σ} (h : P s) : P (advance settle next? goal now s) :=
  hsettle goal _ (wait_keeps hsettle (fun _ => false) goal now h)

/-- A system that is done, or at its goal, does not wait; another one is settled until it is done or at its
goal. What holds of it may depend on the moment, as long as it still holds when the clock stops again. -/
theorem wait_cases {P Q : Time → σ → Prop} (hsettle : ∀ now s, P now s → Q now (settle now s))
    (hstop : ∀ now goal s, P now s → Q (stop now goal (next? (settle now s))) (settle now s))
    (hkept : ∀ now s, Q now s → P now s) (done : σ → Bool) (goal now : Time) {s : σ} (h : P now s) :
    let waited := wait settle next? done goal now s
    waited = (now, s) ∧ (done s ∨ goal ≤ now) ∨
      Q waited.1 waited.2 ∧ (done waited.2 ∨ goal ≤ waited.1) := by
  fun_induction wait settle next? done goal now s with
  | case1 now s hover => exact .inl ⟨rfl, by simpa using hover⟩
  | case2 now s _ s' hdone => exact .inr ⟨hsettle now s h, .inl hdone⟩
  | case3 now s _ s' _ ih =>
      have hnext := hstop now goal s h
      right
      rcases ih (hkept _ _ hnext) with ⟨hwaited, hover⟩ | hover
      · rw [hwaited]
        exact ⟨hnext, hover⟩
      · exact hover

/-- A system that is not to be done before the goal waits until the goal. -/
theorem wait_goal {goal now : Time} (hle : now ≤ goal) (s : σ) :
    (wait settle next? (fun _ => false) goal now s).1 = goal := by
  fun_induction wait settle next? (fun _ => false) goal now s with
  | case1 now s hover => exact Int.le_antisymm hle (by simpa using hover)
  | case2 now s _ s' hdone => exact absurd hdone Bool.false_ne_true
  | case3 now s hgoes s' _ ih =>
      simp only [Bool.false_or, decide_eq_true_eq] at hgoes
      refine ih ?_
      rw [stop]
      lia

/-! ### Two systems -/

section Related

variable {τ : Type} {R : σ → τ → Prop} {settle' : Time → τ → τ} {next?' : τ → Option Time}
  (hsettle : ∀ now s t, R s t → R (settle now s) (settle' now t))
  (hnext : ∀ s t, R s t → next? s = next?' t)

include hsettle hnext

/-- Time passes alike for systems that settle alike, stop at the same moments and are done alike. -/
theorem wait_related_until {done : σ → Bool} {done' : τ → Bool} (hdone : ∀ s t, R s t → done s = done' t)
    (goal now : Time) {s : σ} {t : τ} (h : R s t) :
    (wait settle next? done goal now s).1 = (wait settle' next?' done' goal now t).1 ∧
      R (wait settle next? done goal now s).2 (wait settle' next?' done' goal now t).2 := by
  revert t
  fun_induction wait settle next? done goal now s with
  | case1 now s hover =>
      intro t h
      have hover' : (done' t || goal ≤ now) = true := hdone s t h ▸ hover
      rw [wait, if_pos hover']
      exact ⟨rfl, h⟩
  | case2 now s hgoes s' =>
      rename_i hover
      intro t h
      have hsettled := hsettle now s t h
      have hgoes' : ¬(done' t || goal ≤ now) = true := hdone s t h ▸ hgoes
      have hover' : done' (settle' now t) = true := hdone s' _ hsettled ▸ hover
      have hother : wait settle' next?' done' goal now t = (now, settle' now t) := by
        rw [wait, if_neg hgoes']
        exact if_pos hover'
      rw [hother]
      exact ⟨rfl, hsettled⟩
  | case3 now s hgoes s' hagain =>
      rename_i ih
      intro t h
      have hsettled := hsettle now s t h
      have hgoes' : ¬(done' t || goal ≤ now) = true := hdone s t h ▸ hgoes
      have hagain' : ¬done' (settle' now t) = true := hdone s' _ hsettled ▸ hagain
      have hother : wait settle' next?' done' goal now t =
          wait settle' next?' done' goal (stop now goal (next?' (settle' now t))) (settle' now t) := by
        rw [wait, if_neg hgoes']
        exact if_neg hagain'
      rw [hother, ← hnext _ _ hsettled]
      exact ih hsettled

/-- Time passes alike for systems that settle alike and stop at the same moments. -/
theorem wait_related (goal now : Time) {s : σ} {t : τ} (h : R s t) :
    (wait settle next? (fun _ => false) goal now s).1 =
        (wait settle' next?' (fun _ => false) goal now t).1 ∧
      R (wait settle next? (fun _ => false) goal now s).2
        (wait settle' next?' (fun _ => false) goal now t).2 :=
  wait_related_until hsettle hnext (fun _ _ _ => rfl) goal now h

theorem advance_related (goal now : Time) {s : σ} {t : τ} (h : R s t) :
    R (advance settle next? goal now s) (advance settle' next?' goal now t) :=
  hsettle goal _ _ (wait_related hsettle hnext goal now h).2

end Related

end CrowdPad.Clock
