import CrowdPad.Proofs.Clock
import CrowdPad.Proofs.Playback
import CrowdPad.Proofs.Team.Effects
import Mathlib

/-! Runs of a team on a host of its own. Whatever is done to the team, and however the parts of what
is due are spread over time, a key of the device is never released more often than it was pressed, and
it is up whenever no batch is active and nothing is queued. Only stopping the team can change that. -/

namespace CrowdPad

/-- A team with the host on which it runs. -/
structure Station where
  host : Host
  member : Member

/-- What can happen to a running team. -/
inductive TeamStep where
  | message (author text : String) (shift : Time)
  | cancelAll
  | cancelBatch (batch : Nat)
  | reset
  | injectRandom
  | setRandom (on : Bool)
  /-- Chance goes on in some other way. -/
  | reseed (seed : Nat)
  | addMacro (name body : String)
  | changeMacro (name body : String)
  | removeMacro (name : String)
  | reloadMacros
  | restore (stored : StoredMacros)
  /-- Somebody else changes the files. -/
  | changeFiles (files : Files)
  /-- Lanes hand over what is due; the worker may be behind with it. -/
  | fire
  | tickRandom
  /-- The worker works off what is queued. -/
  | work
  | retire
  /-- Time passes, and all that is due before the end of it is done. -/
  | wait (ms : Nat)
  /-- Time passes, and all that is due is done. -/
  | advance (ms : Nat)

/-- Whether a step hands edges over, works them off, takes out batches, or lets time pass. -/
def TeamStep.isTimed : TeamStep → Bool
  | .fire | .work | .retire | .wait _ | .advance _ => true
  | _ => false

namespace Station

def team (s : Station) : Team := s.member.team

/-- Whether no batch is active and the worker has nothing left to do. -/
def Quiet (s : Station) : Prop :=
  s.team.scheduler.activeBatches = 0 ∧ ∃ w, s.team.playback.worker = .here w ∧ w.queue = []

def start (host : Host) (seed : Nat) (config : TeamConfig) (verbs : VerbTable)
    (telemetry : Option Telemetry) : Except TeamError Station := do
  let (host, member) ← Hub.startMember host seed config verbs telemetry
  return { host, member }

def perform {α : Type} (s : Station) (action : TeamAction α) : Station :=
  let (host, member, _) := Hub.perform s.host s.member action
  { host, member }

/-- Does something to the team that touches neither files nor device. -/
def change (s : Station) (f : Team → Team × List Notice) : Station :=
  s.perform fun files _ t => let (t, notices) := f t; (files, t, notices, ())

def work (s : Station) : Station :=
  let (team, device, notices) := s.team.work s.host.now s.host.network s.host.device
  { host := { s.host with device }.notifyAll s.member.telemetry notices
    member := { s.member with team } }

/-- Everything that is due at a moment. -/
def settle (now : Time) (s : Station) : Station :=
  let (host, member, _) := Hub.settleMember { s.host with now } s.member
  { host := host.flush, member }

def nextDue? (s : Station) : Option Time := s.team.nextDue?

def step (s : Station) : TeamStep → Station
  | .message author text shift => s.perform (.message author text shift)
  | .cancelAll => s.perform .cancelAll
  | .cancelBatch batch => s.perform (.cancelBatch batch)
  | .reset => s.perform .reset
  | .injectRandom => s.perform .injectRandom
  | .setRandom on => s.perform (.setRandom on)
  | .reseed seed => s.change fun t => ({ t with seed }, [])
  | .addMacro name body => s.perform (.addMacro name body)
  | .changeMacro name body => s.perform (.changeMacro name body)
  | .removeMacro name => s.perform (.removeMacro name)
  | .reloadMacros => s.perform .reloadMacros
  | .restore stored => s.perform (.restore stored)
  | .changeFiles files => { s with host := { s.host with files } }
  | .fire => s.change fun t => t.fire s.host.now
  | .tickRandom => s.change fun t => t.tickRandom s.host.now
  | .work => s.work
  | .retire => s.change fun t => ({ t with playback := t.playback.retire.1 }, [])
  | .wait ms =>
    let (now, s) := Clock.wait settle nextDue? (fun _ => false) (s.host.now + ms) s.host.now s
    { s with host := { s.host with now } }
  | .advance ms => Clock.advance settle nextDue? (s.host.now + ms) s.host.now s

def run (s : Station) (steps : List TeamStep) : Station := steps.foldl step s

end Station

/-! ### Notices -/

namespace Host

@[simp] theorem log_device (h : Host) (telemetry : Telemetry) (level : Level) (message : String)
    (metadata : Value) : (h.log telemetry level message metadata).device = h.device := by
  unfold log
  split <;> rfl

@[simp] theorem post_device (h : Host) (telemetry : Telemetry) (kind : String) (payload : Value) :
    (h.post telemetry kind payload).device = h.device := by
  unfold post
  split <;> rfl

/-- Notices do not reach the device. -/
@[simp] theorem notifyAll_device (h : Host) (telemetry : Option Telemetry)
    (notices : List Notice) : (h.notifyAll telemetry notices).device = h.device := by
  cases telemetry with
  | none => rfl
  | some telemetry =>
      refine List.foldlRecOn notices _ (motive := fun g : Host => g.device = h.device) rfl ?_
      intro g hg notice _
      cases notice <;> simp [notify, hg]

@[simp] theorem log_now (h : Host) (telemetry : Telemetry) (level : Level) (message : String)
    (metadata : Value) : (h.log telemetry level message metadata).now = h.now := by
  unfold log
  split <;> rfl

@[simp] theorem post_now (h : Host) (telemetry : Telemetry) (kind : String) (payload : Value) :
    (h.post telemetry kind payload).now = h.now := by
  unfold post
  split <;> rfl

/-- Notices take no time. -/
@[simp] theorem notifyAll_now (h : Host) (telemetry : Option Telemetry) (notices : List Notice) :
    (h.notifyAll telemetry notices).now = h.now := by
  cases telemetry with
  | none => rfl
  | some telemetry =>
      refine List.foldlRecOn notices _ (motive := fun g : Host => g.now = h.now) rfl ?_
      intro g hg notice _
      cases notice <;> simp [notify, hg]

end Host

/-! ### A process with one team -/

namespace Station

/-- A process in which this team runs alone. -/
def hub (s : Station) (failed : List FailedTeam) (ended : List (String × Batch)) : Hub :=
  { members := [s.member], failed, host := s.host, ended }

variable (s : Station) (failed : List FailedTeam) (ended : List (String × Batch))

/-- Time passes for the process as it passes for its team. -/
theorem advance_hub (ms : Nat) : ∃ later,
    (s.hub failed ended).advance ms = (s.step (.advance ms)).hub failed later := by
  refine Clock.advance_related (R := fun h s => ∃ later, h = Station.hub s failed later) ?_ ?_ _ _
    ⟨ended, rfl⟩
  · rintro now h s ⟨later, rfl⟩
    exact ⟨_, rfl⟩
  · rintro h s ⟨later, rfl⟩
    show ([s.member].filterMap fun m => m.team.nextDue?).min? = s.team.nextDue?
    cases hnext : s.member.team.nextDue? <;> simp [hnext, team]

end Station

/-! ### Steps that take no time -/

namespace Station

/-- Whether no more has become of a team than that a batch was scheduled, or that some were cancelled. -/
structure Shifted (s s' : Station) : Prop where
  playback : s.team.playback.Shifts s'.team.playback
  device : s'.host.device = s.host.device
  now : s'.host.now = s.host.now

variable (s : Station)

theorem shifted_perform {α : Type} (action : TeamAction α)
    (h : s.team.playback.Shifts (action s.host.files s.host.now s.team).2.1.playback) :
    s.Shifted (s.perform action) :=
  ⟨h, Host.notifyAll_device .., Host.notifyAll_now ..⟩

theorem shifted_change (f : Team → Team × List Notice)
    (h : s.team.playback.Shifts (f s.team).1.playback) : s.Shifted (s.change f) :=
  s.shifted_perform _ h

theorem shifted_step {σ : TeamStep} (hσ : σ.isTimed = false) : s.Shifted (s.step σ) := by
  cases σ with
  | message author text shift =>
      exact s.shifted_perform (.message author text shift) (s.team.shifts_handleMessage ..)
  | cancelAll => exact s.shifted_perform .cancelAll s.team.shifts_cancelAll
  | cancelBatch batch => exact s.shifted_perform (.cancelBatch batch) (s.team.shifts_cancelBatch batch)
  | reset => exact s.shifted_perform .reset (TeamAction.shifts_reset ..)
  | injectRandom => exact s.shifted_perform .injectRandom (s.team.shifts_injectRandom s.host.now)
  | setRandom on => exact s.shifted_perform (.setRandom on) .same
  | reseed seed => exact s.shifted_change (fun t => ({ t with seed }, [])) .same
  | addMacro name body =>
      exact s.shifted_perform (.addMacro name body)
        (TeamAction.shifts_of_macros (TeamAction.exists_macros_addMacro ..))
  | changeMacro name body =>
      exact s.shifted_perform (.changeMacro name body)
        (TeamAction.shifts_of_macros (TeamAction.exists_macros_changeMacro ..))
  | removeMacro name =>
      exact s.shifted_perform (.removeMacro name)
        (TeamAction.shifts_of_macros (TeamAction.exists_macros_removeMacro ..))
  | reloadMacros => exact s.shifted_perform .reloadMacros (TeamAction.shifts_reloadMacros ..)
  | restore stored => exact s.shifted_perform (.restore stored) .same
  | changeFiles files => exact ⟨.same, rfl, rfl⟩
  | tickRandom =>
      exact s.shifted_change (fun t => t.tickRandom s.host.now) (s.team.shifts_tickRandom s.host.now)
  | fire | work | retire | wait ms | advance ms => cases hσ

end Station

/-! ### Books that agree with the device -/

theorem Playback.Steady.shift {device : Device} {p p' : Playback} (h : p.Steady device)
    (hshifts : p.Shifts p') : p'.Steady device := by
  cases hshifts with
  | same => exact h
  | scheduled requests reference => exact h.schedule requests reference
  | cancelled which => exact h.cancelIf which

namespace Team

def Steady (device : Device) (t : Team) : Prop := t.playback.Steady device

variable {device : Device} {t : Team}

theorem Steady.fire (h : t.Steady device) (now : Time) : (t.fire now).1.Steady device :=
  Playback.Steady.fire h now

theorem Steady.tickRandom (h : t.Steady device) (now : Time) : (t.tickRandom now).1.Steady device :=
  Playback.Steady.shift h (t.shifts_tickRandom now)

theorem Steady.work (h : t.Steady device) (now : Time) (network : Attempt) :
    (t.work now network device).1.Steady (t.work now network device).2.1 :=
  Playback.Steady.work h now network

theorem Steady.retire (h : t.Steady device) :
    ({ t with playback := t.playback.retire.1 } : Team).Steady device :=
  Playback.Steady.retire h

theorem Steady.settle (h : t.Steady device) (now : Time) (network : Attempt) :
    (t.settle now network device).1.Steady (t.settle now network device).2.1 := by
  unfold Team.settle
  have hfired := ((h.fire now).tickRandom now).fire now
  exact (hfired.work now network).retire

end Team

/-! ### Runs -/

namespace Station

def Steady (s : Station) : Prop := s.team.Steady s.host.device

variable {s : Station}

theorem Steady.change (h : s.Steady) {f : Team → Team × List Notice}
    (hf : ∀ {device : Device} {t : Team}, t.Steady device → (f t).1.Steady device) :
    (s.change f).Steady := by
  have hdevice : (s.change f).host.device = s.host.device := Host.notifyAll_device ..
  rw [Steady, hdevice]
  exact hf h

theorem Steady.work (h : s.Steady) : s.work.Steady := by
  have hdevice : s.work.host.device = (s.team.work s.host.now s.host.network s.host.device).2.1 :=
    Host.notifyAll_device ..
  rw [Steady, hdevice]
  exact Team.Steady.work h s.host.now s.host.network

theorem Steady.settle (now : Time) (h : s.Steady) : (s.settle now).Steady := by
  have hdevice : (s.settle now).host.device =
      (s.team.settle now s.host.network s.host.device).2.1 := Host.notifyAll_device ..
  rw [Steady, hdevice]
  exact Team.Steady.settle h now s.host.network

theorem Steady.step (h : s.Steady) (σ : TeamStep) : (s.step σ).Steady := by
  cases hσ : σ.isTimed with
  | false =>
      have hshifted := s.shifted_step hσ
      rw [Steady, hshifted.device]
      exact Playback.Steady.shift h hshifted.playback
  | true =>
      cases σ with
      | fire => exact h.change fun ht => ht.fire s.host.now
      | work => exact h.work
      | retire => exact h.change fun ht => ht.retire
      | wait ms => exact Clock.wait_keeps (P := Steady) (fun _ _ => Steady.settle _) _ _ _ h
      | advance ms => exact Clock.advance_keeps (P := Steady) (fun _ _ => Steady.settle _) _ _ h
      | _ => cases hσ

theorem Steady.run (h : s.Steady) (steps : List TeamStep) : (s.run steps).Steady :=
  List.foldlRecOn steps Station.step h fun _ h σ _ => h.step σ

variable {host : Host} {seed : Nat} {config : TeamConfig} {verbs : VerbTable}
  {telemetry : Option Telemetry}

/-- What is started is a team, and its host is told what the team says as it starts. -/
theorem exists_of_start_eq_ok (hstart : start host seed config verbs telemetry = .ok s) :
    ∃ team notices, Team.start host.files host.now seed config verbs = .ok (team, notices) ∧
      s = { host := host.notifyAll telemetry notices, member := { team, telemetry } } := by
  obtain ⟨⟨host', member⟩, hmember, hs⟩ := exists_of_bind_eq_ok hstart
  obtain ⟨⟨team, notices⟩, hteam, hmember⟩ := exists_of_bind_eq_ok hmember
  cases hmember
  cases hs
  exact ⟨team, notices, hteam, rfl⟩

theorem start_steady (hstart : start host seed config verbs telemetry = .ok s)
    (hhere : config.target.mode = .here) (hfresh : host.device.inputs = []) : s.Steady := by
  obtain ⟨team, notices, hteam, rfl⟩ := exists_of_start_eq_ok hstart
  rw [Steady, Host.notifyAll_device]
  show team.playback.Steady host.device
  rw [Team.start_playback hteam, Worker.ofTarget, hhere]
  exact Playback.steady_new config.target hfresh

/-- A key of the device is never released more often than it was pressed, and is up again whenever
no batch is active and the worker has nothing left to do. -/
theorem no_key_stuck (hstart : start host seed config verbs telemetry = .ok s)
    (hhere : config.target.mode = .here) (hfresh : host.device.inputs = [])
    (steps : List TeamStep) (key : String) :
    (∀ front, front <+: (s.run steps).host.device.inputs →
      (Input.transitionsOf front key).count .release ≤
        (Input.transitionsOf front key).count .press) ∧
    ((s.run steps).Quiet →
      (Input.transitionsOf (s.run steps).host.device.inputs key).count .press =
        (Input.transitionsOf (s.run steps).host.device.inputs key).count .release) := by
  have hsteady : (s.run steps).Steady := (start_steady hstart hhere hfresh).run steps
  refine ⟨fun front hfront => Playback.Steady.count_le hsteady key hfront, ?_⟩
  rintro ⟨hidle, w, hw, hqueue⟩
  exact Playback.Steady.count_eq hsteady (List.length_eq_zero_iff.mp hidle) hw hqueue key

/-- A host without the second of two keys, and a team that plays both. -/
def twoKeys : Station where
  host := { device := { failing := ["b"] } }
  member := { team := {
    config := { name := "red", target := {} }
    verbs := { verbs := [{ name := "jump", key := "a", defaultMs := 50 },
      { name := "duck", key := "b", defaultMs := 50 }] }
    playback := { worker := .here { target := {} } }
    dropped := .ofCapacity 32
    failures := .ofCapacity 32 } }

/-- A jump by chance comes down again although the team is reset while its key is down. -/
theorem no_key_stuck_behind_reset :
    (Input.transitionsOf (twoKeys.run [.reseed 2, .injectRandom, .wait 10, .reset,
      .advance 50]).host.device.inputs "a").count .release = 1 := by
  have hstart : start twoKeys.host 0 twoKeys.team.config twoKeys.team.verbs none = .ok twoKeys := rfl
  have hquiet : (twoKeys.run [.reseed 2, .injectRandom, .wait 10, .reset, .advance 50]).Quiet :=
    ⟨by cbv, { target := {}, stats := { delivered := 2 } }, by cbv, rfl⟩
  rw [← (no_key_stuck hstart rfl rfl _ "a").2 hquiet]
  cbv

end Station

end CrowdPad
