import CrowdPad.Proofs.Hub.Host
import CrowdPad.Proofs.Team.Life

/-! Chronicles of teams. A chronicle runs a team through its life and records of every step what it is told
to record. What every moment and every step at one moment keep is kept by every step of a life; it may depend
on the time. -/

namespace CrowdPad

/-! ### Steps at one moment -/

namespace LifeStep

/-- Whether a step is made at one moment, by those who deal with the team or by a part of it. -/
def IsInstant : LifeStep → Prop
  | .step (.wait _) => False
  | .step (.advance _) => False
  | .move _ => False
  | _ => True

end LifeStep

/-- What is recorded of a team. -/
structure Chronicler (α : Type) where
  /-- What is recorded when everything that is due at a moment is done. -/
  settling : Time → Station → List α
  /-- What is recorded of a step that is made at one moment. -/
  doing : Station → LifeStep → List α

/-- A team with what was recorded of it, the oldest first. -/
structure Chronicle (α : Type) where
  station : Station
  seen : List α := []

namespace Station

theorem settle_now (s : Station) (now : Time) : (s.settle now).host.now = now :=
  Host.notifyAll_now ..

/-- A step that is made at one moment takes no time. -/
theorem live_now (s : Station) {σ : LifeStep} (hσ : σ.IsInstant) :
    (s.live σ).host.now = s.host.now := by
  cases σ with
  | move host => exact hσ.elim
  | beginStop => exact Host.notifyAll_now ..
  | endStop => exact Host.notifyAll_now ..
  | step σ =>
      cases σ with
      | wait ms => exact hσ.elim
      | advance ms => exact hσ.elim
      | changeFiles files => rfl
      | _ => exact Host.notifyAll_now ..

end Station

namespace Chronicle

variable {α : Type}

def nextDue? (c : Chronicle α) : Option Time := c.station.nextDue?

/-- Goes on at another moment, or on another host. -/
def moveTo (host : Host) (c : Chronicle α) : Chronicle α := { c with station := { c.station with host } }

end Chronicle

namespace Chronicler

variable {α : Type} (r : Chronicler α)

def settle (now : Time) (c : Chronicle α) : Chronicle α where
  station := c.station.settle now
  seen := c.seen ++ r.settling now c.station

/-- A step that is made at one moment. -/
def act (c : Chronicle α) (σ : LifeStep) : Chronicle α where
  station := c.station.live σ
  seen := c.seen ++ r.doing c.station σ

def live (c : Chronicle α) : LifeStep → Chronicle α
  | .step (.wait ms) =>
    let goal := c.station.host.now + ms
    let (now, c) := Clock.wait r.settle Chronicle.nextDue? (fun _ => false) goal c.station.host.now c
    c.moveTo { c.station.host with now }
  | .step (.advance ms) =>
    Clock.advance r.settle Chronicle.nextDue? (c.station.host.now + ms) c.station.host.now c
  | .move host => c.moveTo host
  | σ => r.act c σ

def liveAll (c : Chronicle α) (life : List LifeStep) : Chronicle α := life.foldl r.live c

variable {r} (c : Chronicle α)

/-- A chronicle follows its team. -/
theorem station_live (σ : LifeStep) : (r.live c σ).station = c.station.live σ := by
  have hsettle : ∀ now (c : Chronicle α) (s : Station), c.station = s →
      (r.settle now c).station = s.settle now := by
    rintro now c _ rfl
    rfl
  have hnext : ∀ (c : Chronicle α) (s : Station), c.station = s → c.nextDue? = s.nextDue? := by
    rintro c _ rfl
    rfl
  cases σ with
  | move host => rfl
  | beginStop => rfl
  | endStop => rfl
  | step σ =>
      cases σ with
      | wait ms =>
          obtain ⟨hnow, hstation⟩ := Clock.wait_related (R := fun (c : Chronicle α) s => c.station = s)
            hsettle hnext (c.station.host.now + ms) c.station.host.now (s := c) rfl
          exact congrArg₂ (fun now s => { s with host := { s.host with now } : Station }) hnow hstation
      | advance ms =>
          exact Clock.advance_related (R := fun (c : Chronicle α) s => c.station = s) hsettle hnext _ _ rfl
      | _ => rfl

theorem station_liveAll (life : List LifeStep) : (r.liveAll c life).station = c.station.liveAll life := by
  induction life generalizing c with
  | nil => rfl
  | cons σ rest ih =>
      refine (ih (r.live c σ)).trans ?_
      rw [station_live]
      rfl

theorem live_of_isInstant {σ : LifeStep} (hσ : σ.IsInstant) : r.live c σ = r.act c σ := by
  cases σ with
  | move host => exact hσ.elim
  | beginStop => rfl
  | endStop => rfl
  | step σ =>
      cases σ with
      | wait ms => exact hσ.elim
      | advance ms => exact hσ.elim
      | _ => rfl

/-! ### What is kept -/

/-- Whether something that depends on the time, but not on the host, is kept as a team lives. -/
structure Keeps (r : Chronicler α) (P : Time → Chronicle α → Prop) : Prop where
  later : ∀ {now later c}, now ≤ later → P now c → P later c
  moveTo : ∀ {now c} host, P now c → P now (c.moveTo host)
  settle : ∀ {now c}, P now c → P now (r.settle now c)
  act : ∀ {c : Chronicle α} {σ}, σ.IsInstant → P c.station.host.now c → P c.station.host.now (r.act c σ)

variable {c} {P : Time → Chronicle α → Prop}

theorem Keeps.live (hkeeps : r.Keeps P) {σ : LifeStep}
    (hmove : ∀ host, σ = .move host → P c.station.host.now c → P host.now c)
    (h : P c.station.host.now c) : P (r.live c σ).station.host.now (r.live c σ) := by
  -- the clock stops behind each moment, so that what holds there still holds at the next stop
  have hwait : ∀ goal, P (Clock.wait r.settle Chronicle.nextDue? (fun _ => false) goal
      c.station.host.now c).1 (Clock.wait r.settle Chronicle.nextDue? (fun _ => false) goal
        c.station.host.now c).2 := by
    intro goal
    rcases Clock.wait_cases (P := P) (Q := P) (fun _ _ => hkeeps.settle)
      (fun now goal c h => hkeeps.later (Clock.lt_stop now goal _).le (hkeeps.settle h))
      (fun _ _ h => h) (fun _ => false) goal c.station.host.now h with ⟨hwaited, -⟩ | ⟨hwaited, -⟩
    · rw [hwaited]
      exact h
    · exact hwaited
  by_cases hσ : σ.IsInstant
  · rw [live_of_isInstant c hσ]
    show P (c.station.live σ).host.now (r.act c σ)
    rw [c.station.live_now hσ]
    exact hkeeps.act hσ h
  · cases σ with
    | move host => exact hkeeps.moveTo host (hmove host rfl h)
    | beginStop => exact absurd trivial hσ
    | endStop => exact absurd trivial hσ
    | step σ =>
        cases σ with
        | wait ms => exact hkeeps.moveTo _ (hwait _)
        | advance ms =>
            have hgoal := hwait (c.station.host.now + ms)
            rw [Clock.wait_goal (Int.le_add_of_nonneg_right (Int.natCast_nonneg ms))] at hgoal
            have hnow : (r.live c (.step (.advance ms))).station.host.now = c.station.host.now + ms :=
              Station.settle_now ..
            rw [hnow]
            exact hkeeps.settle hgoal
        | _ => exact absurd trivial hσ

/-- What does not depend on the time holds to the end of every life. -/
theorem Keeps.always {P : Chronicle α → Prop} (hkeeps : r.Keeps fun _ => P) (h : P c)
    (life : List LifeStep) : P (r.liveAll c life) := by
  induction life generalizing c with
  | nil => exact h
  | cons σ rest ih => exact ih (hkeeps.live (fun _ _ h => h) h)

end Chronicler

end CrowdPad
