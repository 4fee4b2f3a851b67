import CrowdPad.Proofs.Team.Edit

/-! The whole life of a team. Besides what can be done to it, what it runs on may be changed by others at
any moment, and it may be stopped. Stopping begins and ends, and anything can happen in between. -/

namespace CrowdPad

/-- Something in the life of a team. -/
inductive LifeStep where
  | step (σ : TeamStep)
  /-- What the team runs on is changed: its time, the files, the device or the network. -/
  | move (host : Host)
  | beginStop
  | endStop

namespace Station

def live (s : Station) : LifeStep → Station
  | .step σ => s.step σ
  | .move host => { s with host }
  | .beginStop => s.change fun t => (t.beginStop, [])
  | .endStop => s.change Team.endStop

def liveAll (s : Station) (life : List LifeStep) : Station := life.foldl live s

/-- Ends a stop at a moment: what is due by then is handed over, and the worker is stopped. -/
def cutOff (now : Time) (s : Station) : Station :=
  let s := { s with host := { s.host with now } }
  (s.change fun t => t.fire now).change Team.endStop

/-- Waits for a team to be idle, at most for so many milliseconds. -/
def untilIdle (graceMs : Nat) (s : Station) : Time × Station :=
  Clock.wait settle nextDue? (fun s => s.team.isIdle) (s.host.now + graceMs) s.host.now s

/-- Stops a team whose keys get so many milliseconds to come up. -/
def shutdown (graceMs : Nat) (s : Station) : Station :=
  let waited := (s.live .beginStop).untilIdle graceMs
  waited.2.cutOff waited.1

variable (s : Station)

/-! ### Stopping step by step -/

theorem liveAll_append (before behind : List LifeStep) :
    s.liveAll (before ++ behind) = (s.liveAll before).liveAll behind := List.foldl_append ..

/-- Everything that is due at a moment is done step by step. -/
theorem settle_eq_liveAll (now : Time) :
    s.settle now = s.liveAll [.move { s.host with now }, .step (.advance 0)] := by
  have hgoal : now + ((0 : Nat) : Int) = now := Int.add_zero now
  show s.settle now = Clock.advance settle nextDue? (now + ((0 : Nat) : Int)) now _
  rw [Clock.advance, hgoal, Clock.wait, if_pos (by simp)]
  rfl

/-- A stop is a part of a life. -/
theorem exists_shutdown_eq_liveAll (graceMs : Nat) : ∃ life, s.shutdown graceMs = s.liveAll life := by
  have hsettle : ∀ now (s' : Station), (∃ life, s' = s.liveAll life) →
      ∃ life, s'.settle now = s.liveAll life := by
    rintro now _ ⟨life, rfl⟩
    rw [settle_eq_liveAll]
    exact ⟨life ++ _, (liveAll_append ..).symm⟩
  let waited := (s.live .beginStop).untilIdle graceMs
  obtain ⟨life, hlife⟩ : ∃ life, waited.2 = s.liveAll life :=
    Clock.wait_keeps hsettle _ _ _ ⟨[.beginStop], rfl⟩
  refine ⟨life ++ [.move { waited.2.host with now := waited.1 }, .step .fire, .endStop], ?_⟩
  rw [liveAll_append, ← hlife]
  rfl

/-! ### A process with one team -/

variable (failed : List FailedTeam) (ended : List (String × Batch))

theorem change_hub {name : String} (hname : s.member.name = name) (f : Team → Team × List Notice) :
    (s.hub failed ended).change name f = (s.change f).hub failed ended := by
  simp [Hub.change, Hub.act?, hub, change, perform, hname]

theorem cutOff_hub {name : String} (hname : s.member.name = name) (now : Time) :
    (Hub.change { s.hub failed ended with host := { s.host with now } } name
      fun t => t.fire now).change name Team.endStop = (s.cutOff now).hub failed ended := by
  let ending : Station := { s with host := { s.host with now } }
  have hfire := ending.change_hub failed ended hname fun t => t.fire now
  have hend := (ending.change fun t => t.fire now).change_hub failed ended hname Team.endStop
  exact (congrArg (·.change name Team.endStop) hfire).trans hend

theorem name_settle (now : Time) : (s.settle now).member.name = s.member.name :=
  congrArg (fun repertoire => repertoire.1.name) (s.repertoire_settle now)

theorem team?_hub {name : String} (hname : s.member.name = name) :
    (s.hub failed ended).team? name = some s.team := by
  simp [Hub.team?, hub, team, hname]

/-- A process waits for its only team as the team would wait by itself. -/
theorem wait_hub (goal now : Time) : ∃ later,
    let isIdle (hub : Hub) : Bool := (hub.team? s.member.name).all Team.isIdle
    let waited := Clock.wait settle nextDue? (fun s => s.team.isIdle) goal now s
    waited.2.member.name = s.member.name ∧
    Clock.wait Hub.settle Hub.nextDue? isIdle goal now (s.hub failed ended) =
      (waited.1, waited.2.hub failed later) := by
  have hsettle : ∀ now (h : Hub) (s' : Station),
      (s'.member.name = s.member.name ∧ ∃ later, h = s'.hub failed later) →
      (s'.settle now).member.name = s.member.name ∧
        ∃ later, h.settle now = (s'.settle now).hub failed later := by
    rintro now _ s' ⟨hname, later, rfl⟩
    exact ⟨(s'.name_settle now).trans hname, _, rfl⟩
  have hnext : ∀ (h : Hub) (s' : Station),
      (s'.member.name = s.member.name ∧ ∃ later, h = s'.hub failed later) → h.nextDue? = s'.nextDue? := by
    rintro _ s' ⟨-, later, rfl⟩
    show ([s'.member].filterMap fun m => m.team.nextDue?).min? = s'.team.nextDue?
    cases hnext : s'.member.team.nextDue? <;> simp [hnext, team]
  have hdone : ∀ (h : Hub) (s' : Station),
      (s'.member.name = s.member.name ∧ ∃ later, h = s'.hub failed later) →
      (h.team? s.member.name).all Team.isIdle = s'.team.isIdle := by
    rintro _ s' ⟨hname, later, rfl⟩
    rw [team?_hub s' failed later hname]
    rfl
  obtain ⟨hnow, hname, later, hlater⟩ := Clock.wait_related_until hsettle hnext hdone goal now
    (s := s.hub failed ended) (t := s) ⟨rfl, ended, rfl⟩
  exact ⟨later, hname, Prod.ext hnow hlater⟩

/-- A process stops its only team as the team is stopped. -/
theorem shutdownTeam_hub (graceMs : Nat) : ∃ later,
    (s.hub failed ended).shutdownTeam graceMs s.member.name = (s.shutdown graceMs).hub failed later := by
  let begun := s.live .beginStop
  obtain ⟨later, hname, hwait⟩ := begun.wait_hub failed ended (begun.host.now + graceMs) begun.host.now
  refine ⟨later, ?_⟩
  rw [Hub.shutdownTeam, s.change_hub failed ended rfl]
  refine (congrArg (fun done : Time × Hub => Hub.change (Hub.change
    { done.2 with host := { done.2.host with now := done.1 } } s.member.name fun t => t.fire done.1)
    s.member.name Team.endStop) hwait).trans ?_
  exact cutOff_hub _ failed later hname _

/-- Once all teams of a process are to stop, its only team is stopped, and whatever is due for it at that
moment is done. -/
theorem shutdown_hub (graceMs : Nat) : ∃ later, (s.hub failed ended).shutdown graceMs =
    ((s.shutdown graceMs).settle (s.shutdown graceMs).host.now).hub failed later := by
  obtain ⟨later, hlater⟩ := s.shutdownTeam_hub failed ended graceMs
  have hnames : (s.hub failed ended).names = [s.member.name] := rfl
  rw [Hub.shutdown, hnames, List.foldl_cons, List.foldl_nil, hlater]
  exact ⟨_, rfl⟩

end Station

end CrowdPad
