import CrowdPad.Proofs.Dispatch.Lateness

/-! The waits of a worker between failing attempts. As long as nothing is delivered each wait follows from
the one before it, over the presses that are dropped meanwhile, so only the first of them may be above the
ceiling, and only where the settings say so themselves. -/

namespace CrowdPad

/-- The wait behind an attempt that failed. -/
structure Wait where
  nanos : Nat
  /-- When the attempt was over. -/
  began : Time
  /-- When the next attempt may begin. -/
  wake : Time
deriving Repr, DecidableEq

namespace RemoteWorker

/-- How many milliseconds a wait lasts: up to the next whole one, and at least one. -/
def waitMs (nanos : Nat) : Nat :=
  max 1 ((nanos + Backoff.nanosPerMilli - 1) / Backoff.nanosPerMilli)

theorem waitMs_mono {nanos later : Nat} (h : nanos ≤ later) : waitMs nanos ≤ waitMs later :=
  max_le_max le_rfl (Nat.div_le_div_right (by omega))

theorem waitMs_le {settings : RemoteSettings} {nanos : Nat} (h : nanos ≤ settings.ceiling) :
    waitMs nanos ≤ max 1 settings.maxBackoffMs := by
  refine max_le_max le_rfl ?_
  simp only [RemoteSettings.ceiling, Backoff.nanosPerMilli] at h ⊢
  omega

end RemoteWorker

namespace Delivery

variable {target : Target} {settings : RemoteSettings} {d : Delivery} {steps : List RemoteStep}

/-- The wait that a step leads to. -/
def waitOf (d : Delivery) : RemoteStep → Option Wait
  | .handOver _ => none
  | .move now a =>
    if d.worker.isWaiting now then none
    else
      let result := d.worker.move now a
      result.failure.bind fun _ =>
        result.worker.wakeAt.map ({ nanos := d.worker.backoff, began := result.finish, wake := · })

/-- The waits in the course of some steps. -/
def waits (d : Delivery) (steps : List RemoteStep) : List Wait := d.gather waitOf steps

/-- What a step that delivers nothing does to the next wait: it leaves it as it is, or an attempt fails, the
worker waits, and the next wait is the one behind. -/
inductive Waited (d : Delivery) (σ : RemoteStep) : Prop where
  | none (hnone : d.waitOf σ = none) (hsame : (d.step σ).worker.backoff = d.worker.backoff)
  | some (began : Time)
      (hsome : d.waitOf σ = some {
        nanos := d.worker.backoff, began, wake := began + RemoteWorker.waitMs d.worker.backoff })
      (hnext : (d.step σ).worker.backoff = d.worker.settings.nextBackoff d.worker.backoff)

theorem waited_step (d : Delivery) (σ : RemoteStep)
    (hstill : (d.step σ).worker.stats.delivered = d.worker.stats.delivered) : d.Waited σ := by
  cases σ with
  | handOver e =>
      refine .none rfl ?_
      rcases d.step_handOver e with hsame | htaken
      · rw [hsame]
      · rw [htaken]
  | move now a =>
      cases hready : d.worker.isWaiting now with
      | true => exact .none (if_pos hready) (by rw [step, hready]; rfl)
      | false =>
          have hwait : d.waitOf (.move now a) = _ := if_neg (Bool.eq_false_iff.mp hready)
          have hstep := step_move a hready
          have hmoved := RemoteWorker.moved_move d.worker now a
          rw [hstep] at hstill
          generalize d.worker.move now a = result at hmoved hwait hstep hstill
          cases hmoved with
          | idle | passedOver | taken | overdue => exact .none hwait (by rw [hstep]; rfl)
          | attempted hcurrent hfresh hattempted =>
              cases hattempted with
              | failed connected hlater => exact .some _ hwait (by rw [hstep]; rfl)
              | written connected hfits => exact absurd hstill (Nat.succ_ne_self _)

/-- What is delivered stays delivered. -/
theorem delivered_le_run (h : d.Booked target settings) (steps : List RemoteStep) :
    d.worker.stats.delivered ≤ (d.run steps).worker.stats.delivered := by
  rw [h.delivered, (h.run steps).delivered, edges_run, List.length_append]
  exact Nat.le_add_right ..

/-- **The waits of a stretch.** As long as nothing is delivered, the waits are the next wait and those that
follow from it one after the other, each of them taken to whole milliseconds. -/
theorem waits_eq_iterate (h : d.Booked target settings)
    (hstill : (d.run steps).worker.stats.delivered = d.worker.stats.delivered) :
    (d.waits steps).map (·.nanos) =
        List.iterate settings.nextBackoff d.worker.backoff (d.waits steps).length ∧
      ∀ w ∈ d.waits steps, w.wake = w.began + RemoteWorker.waitMs w.nanos := by
  induction steps generalizing d with
  | nil => exact ⟨rfl, nofun⟩
  | cons σ rest ih =>
      have hfirst := delivered_le_run h [σ]
      have hrest := delivered_le_run (h.step σ) rest
      have hwaits : d.waits (σ :: rest) = (d.waitOf σ).toList ++ (d.step σ).waits rest := rfl
      have hrun : d.run (σ :: rest) = (d.step σ).run rest := rfl
      have hone : d.run [σ] = d.step σ := rfl
      rw [hrun] at hstill
      rw [hone] at hfirst
      obtain ⟨hiterate, hwake⟩ := ih (h.step σ) (by omega)
      cases waited_step d σ (by omega) with
      | none hnone hsame =>
          rw [hwaits, hnone]
          rw [hsame] at hiterate
          exact ⟨hiterate, hwake⟩
      | some began hsome hnext =>
          rw [hwaits, hsome]
          rw [hnext, h.sameSettings] at hiterate
          constructor
          · rw [Option.toList_some, List.singleton_append, List.map_cons, hiterate]
            rfl
          · rw [Option.toList_some, List.singleton_append, List.forall_mem_cons]
            exact ⟨rfl, hwake⟩

/-! ### Ceilings -/

theorem tail_iterate {α : Type} (f : α → α) (first : α) (count : Nat) :
    (List.iterate f first count).tail = List.iterate f (f first) (count - 1) := by
  cases count <;> rfl

/-- **Backoff.** In a stretch in which nothing is delivered, every wait but the first is within the
ceiling and, up to a ceiling of 2^32 ms, none of these is shorter than the one before. The first wait is
within the ceiling too unless it is the first one of the settings. So where the settings do not start above
their own ceiling, all waits are within it and none is shorter than the one before. -/
theorem waits_within_ceiling (target : Target) (settings : RemoteSettings)
    (before stretch : List RemoteStep) {d : Delivery} (hrun : (start target settings).run before = d)
    (hstill : (d.run stretch).worker.stats.delivered = d.worker.stats.delivered) :
    (∀ w ∈ d.waits stretch, w.wake = w.began + RemoteWorker.waitMs w.nanos) ∧
    (∀ w ∈ d.waits stretch, w.nanos = settings.firstBackoff ∨ w.nanos ≤ settings.ceiling) ∧
    (∀ w ∈ (d.waits stretch).tail, w.nanos ≤ settings.ceiling) ∧
    (settings.maxBackoffMs ≤ 2 ^ 32 →
      (d.waits stretch).tail.Pairwise fun earlier later => earlier.nanos ≤ later.nanos) ∧
    (settings.initialBackoffMs ≤ settings.maxBackoffMs →
      (∀ w ∈ d.waits stretch,
        w.nanos ≤ settings.ceiling ∧ w.wake ≤ w.began + (max 1 settings.maxBackoffMs : Nat)) ∧
      (settings.maxBackoffMs ≤ 2 ^ 32 →
        (d.waits stretch).Pairwise fun earlier later =>
          earlier.nanos ≤ later.nanos ∧
            earlier.wake - earlier.began ≤ later.wake - later.began)) := by
  subst hrun
  have hbooked := (start_booked target settings).run before
  have hallowed := allowed_run target settings before
  generalize (start target settings).run before = d at hstill hbooked hallowed ⊢
  obtain ⟨hiterate, hwake⟩ := waits_eq_iterate hbooked hstill
  generalize d.waits stretch = waits at hiterate hwake ⊢
  have htail : waits.tail.map (·.nanos) = List.iterate settings.nextBackoff
      (settings.nextBackoff d.worker.backoff) (waits.length - 1) := by
    rw [List.map_tail, hiterate, tail_iterate]
  have hlater : ∀ w ∈ waits.tail, w.nanos ≤ settings.ceiling := by
    intro w hw
    have hmem : w.nanos ∈ waits.tail.map (·.nanos) := List.mem_map_of_mem hw
    rw [htail] at hmem
    exact RemoteSettings.le_ceiling_of_mem_iterate (settings.nextBackoff_le _) hmem
  refine ⟨hwake, fun w hw => ?_, hlater, fun hmax => ?_, fun hinitial => ?_⟩
  · cases waits with
    | nil => cases hw
    | cons first rest =>
        rcases List.mem_cons.mp hw with rfl | hrest
        · have hfirst : w.nanos = d.worker.backoff := (List.cons.inj hiterate).1
          rw [hfirst]
          exact hallowed
        · exact .inr (hlater w hrest)
  · rw [← List.pairwise_map (f := Wait.nanos), htail]
    exact RemoteSettings.pairwise_iterate hmax (settings.nextBackoff_le _) _
  · have hfirst : settings.firstBackoff ≤ settings.ceiling := Nat.mul_le_mul_right _ hinitial
    have hcapped : d.worker.backoff ≤ settings.ceiling := hallowed.elim (·.trans_le hfirst) id
    constructor
    · intro w hw
      have hmem : w.nanos ∈ waits.map (·.nanos) := List.mem_map_of_mem hw
      rw [hiterate] at hmem
      have hnanos := RemoteSettings.le_ceiling_of_mem_iterate hcapped hmem
      refine ⟨hnanos, ?_⟩
      rw [hwake w hw]
      exact Int.add_le_add_left (Int.ofNat_le.mpr (RemoteWorker.waitMs_le hnanos)) _
    · intro hmax
      have hrising : waits.Pairwise fun earlier later => earlier.nanos ≤ later.nanos := by
        rw [← List.pairwise_map (f := Wait.nanos), hiterate]
        exact RemoteSettings.pairwise_iterate hmax hcapped _
      refine hrising.imp_of_mem fun {earlier later} hearlier hlast hle => ⟨hle, ?_⟩
      rw [hwake earlier hearlier, hwake later hlast, add_sub_cancel_left, add_sub_cancel_left]
      exact Int.ofNat_le.mpr (RemoteWorker.waitMs_mono hle)

/-- A key comes up that went down before, and no server is there. -/
def risingWaits : List RemoteStep :=
  [.handOver (Timeline.tap.releaseEdge 1 0 0), .move 0 .refused] ++
    [0, 1000, 2100, 3310].map fun now => .move now .refused

/-- With the usual settings, the waits behind four refused attempts are 1 s, 1.1 s, 1.21 s and 1.331 s. -/
theorem waits_within_ceiling_of_release :
    let d := start { mode := .remote } {}
    (d.waits risingWaits).map (·.nanos) = [1000000000, 1100000000, 1210000000, 1331000000] ∧
      (d.waits risingWaits).Pairwise fun earlier later =>
        earlier.nanos ≤ later.nanos ∧ earlier.wake - earlier.began ≤ later.wake - later.began := by
  intro d
  have hstill : (d.run risingWaits).worker.stats.delivered = d.worker.stats.delivered := by
    decide +kernel
  obtain ⟨-, -, -, -, hfair⟩ :=
    waits_within_ceiling { mode := .remote } {} [] risingWaits (d := d) rfl hstill
  exact ⟨by decide +kernel, (hfair (by decide)).2 (by decide)⟩

/-- Where the first wait of the settings is above their own ceiling, it is not cut to it, and the wait
behind it is shorter. -/
theorem first_wait_above_ceiling :
    let settings : RemoteSettings := { initialBackoffMs := 500, maxBackoffMs := 100 }
    let d := start { mode := .remote } settings
    let steps : List RemoteStep := [.handOver (Timeline.tap.pressEdge 1 0 0), .move 0 .refused,
      .move 0 .refused, .move 500 .refused]
    (d.run steps).worker.stats.delivered = 0 ∧
      (d.waits steps).map (fun w => w.wake - w.began) = [500, 100] ∧
      ¬(∀ w ∈ d.waits steps, w.nanos ≤ settings.ceiling) ∧
      ¬(d.waits steps).Pairwise fun earlier later => earlier.nanos ≤ later.nanos := by
  decide +kernel

end Delivery

end CrowdPad
