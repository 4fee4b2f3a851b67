import CrowdPad.Proofs.Team.Chronicle
import CrowdPad.Proofs.Team.Journal
import CrowdPad.Proofs.Team.Loop
import CrowdPad.Proofs.Team.Repeats

/-! Random verbs by time. The loop that plays them may be amid its turn at any moment in the life of its team,
and whatever happens then happens between its accesses. It starts a batch only where it has read the switch as
on and has found no batch under way; what changes behind that it does not see, so that its batch may begin
beside that of a message, or when the switch has just been turned off. Its own batches are never under way
together, and however late it is, it starts no more of them than intervals have passed. -/

namespace CrowdPad

namespace Station

/-! ### Beside the loop -/

variable (s : Station)

theorem ages_live (σ : LifeStep) : s.team.scheduler.Ages (s.live σ).team.scheduler := by
  cases σ with
  | move host => exact .refl _
  | beginStop => exact s.team.shifts_cancelAll.ages
  | endStop => exact .refl _
  | step σ =>
      by_cases hreset : σ = .reset
      · rw [hreset]
        exact (TeamAction.shifts_reset s.host.files s.host.now s.team).ages
      · rcases step_sends (s := s) hreset with ⟨-, hages⟩ | ⟨m, -, hsends⟩
        · exact hages.scheduler
        · exact hsends.ages

/-- Only the loop, the switch and a stop change what the loop goes by. -/
theorem pace_live {σ : LifeStep} (hσ : σ.IsInstant) (htick : σ ≠ .step .tickRandom)
    (hset : ∀ on, σ ≠ .step (.setRandom on)) (hstop : σ ≠ .beginStop) :
    (s.live σ).team.pace = s.team.pace := by
  cases σ with
  | move host => rfl
  | beginStop => exact absurd rfl hstop
  | endStop => rfl
  | step σ =>
      cases σ with
      | wait ms => exact hσ.elim
      | advance ms => exact hσ.elim
      | tickRandom => exact absurd rfl htick
      | setRandom on => exact absurd rfl (hset on)
      | message author text shift =>
          exact s.team.pace_handleMessage s.host.now author text (s.host.now + shift)
      | injectRandom => exact s.team.pace_injectRandom s.host.now
      | addMacro name body =>
          exact TeamAction.eq_of_macros Team.pace (fun _ _ => rfl)
            (TeamAction.exists_macros_addMacro name body s.host.files s.host.now s.team)
      | changeMacro name body =>
          exact TeamAction.eq_of_macros Team.pace (fun _ _ => rfl)
            (TeamAction.exists_macros_changeMacro name body s.host.files s.host.now s.team)
      | removeMacro name =>
          exact TeamAction.eq_of_macros Team.pace (fun _ _ => rfl)
            (TeamAction.exists_macros_removeMacro name s.host.files s.host.now s.team)
      | reset =>
          show (TeamAction.reset s.host.files s.host.now s.team).2.1.pace = s.team.pace
          rw [TeamAction.reset_eq]
          cases Team.readMacroFile s.host.files s.team.config <;> rfl
      | reloadMacros =>
          show (TeamAction.reloadMacros s.host.files s.host.now s.team).2.1.pace = s.team.pace
          rw [TeamAction.reloadMacros_eq]
          rcases Team.readMacroFile s.host.files s.team.config with _ | _ | _ <;> rfl
      | _ => rfl

theorem beside_live {σ : LifeStep} (hσ : σ.IsInstant) (htick : σ ≠ .step .tickRandom) :
    s.team.Beside (s.live σ).team := by
  have hages := s.ages_live σ
  by_cases hset : ∃ on, σ = .step (.setRandom on)
  · obtain ⟨on, rfl⟩ := hset
    exact ⟨rfl, fun later hlater => ⟨later, hlater, Int.le_refl later⟩, hages⟩
  · by_cases hstop : σ = .beginStop
    · subst hstop
      exact ⟨rfl, nofun, hages⟩
    · exact Team.beside_of_pace
        (s.pace_live hσ htick (fun on h => hset ⟨on, h⟩) hstop) hages

end Station

namespace Chronicle

/-- The loop of a team of which the turn is known. -/
def loop (turn : Option Turn) (c : Chronicle Pastime) : Loop :=
  { team := c.station.team, turn, started := c.seen }

end Chronicle

namespace Pastime

/-! ### Whole turns -/

/-- The record of the batches that the loop starts in turns that nobody interrupts. -/
def chronicler : Chronicler Pastime where
  settling now s := (s.team.fire now).1.pastimes now
  doing s σ :=
    match σ with
    | .step .tickRandom => s.team.pastimes s.host.now
    | _ => []

theorem doing_of_ne (s : Station) {σ : LifeStep} (htick : σ ≠ .step .tickRandom) :
    chronicler.doing s σ = [] := by
  show (match σ with | .step .tickRandom => s.team.pastimes s.host.now | _ => []) = []
  split
  · exact absurd rfl htick
  · rfl

/-- What is kept at each access of the loop, and by everybody else beside it, is kept as its team lives. -/
theorem keeps_of_accesses {Q : Time → Loop → Prop} (hkeeps : Loop.Keeps Q) (turn : Option Turn) :
    chronicler.Keeps fun now c => Q now (c.loop turn) ∧ (c.loop turn).Awaits where
  later := hkeeps.awaits.later
  moveTo := fun _ h => h
  settle := by
    intro now c h
    have hfired := hkeeps.awaits.beside (c.station.team.beside_fire now) h
    have hplayed := hkeeps.awaits.tick hfired.2 hfired
    exact hkeeps.awaits.beside
      (c.station.team.beside_settle now c.station.host.network c.station.host.device) hplayed
  act := by
    intro c σ hσ h
    by_cases htick : σ = .step .tickRandom
    · subst htick
      exact hkeeps.awaits.tick h.2 h
    · have hseen : (chronicler.act c σ).seen = c.seen := by
        rw [Chronicler.act, doing_of_ne c.station htick, List.append_nil]
      rw [Chronicle.loop, hseen]
      exact hkeeps.awaits.beside (c.station.beside_live hσ htick) h

/-- In a turn that nobody interrupts all that the loop has seen is still so. -/
theorem keeps_found : chronicler.Keeps fun _ c => ∀ p ∈ c.seen, p.read = p.found ∧ p.asked = p.found where
  later _ h := h
  moveTo _ h := h
  settle h := List.forall_mem_append.mpr ⟨h, Team.found_of_mem_pastimes⟩
  act := by
    intro c σ hσ h
    refine List.forall_mem_append.mpr ⟨h, ?_⟩
    by_cases htick : σ = .step .tickRandom
    · subst htick
      exact Team.found_of_mem_pastimes
    · rw [doing_of_ne c.station htick]
      exact List.forall_mem_nil _

variable {c : Chronicle Pastime}

/-- In a step before which the switch is off the loop starts nothing. -/
theorem seen_live_of_off (σ : LifeStep) (hoff : c.station.team.randomOn = false) :
    (chronicler.live c σ).seen = c.seen := by
  have hsettle : ∀ now (c' : Chronicle Pastime),
      (c'.station.team.randomOn = false ∧ c'.seen = c.seen) →
        (chronicler.settle now c').station.team.randomOn = false ∧
          (chronicler.settle now c').seen = c.seen := by
    rintro now c' ⟨hoff, hseen⟩
    have hfired : (c'.station.team.fire now).1.randomOn = false := hoff
    refine ⟨((c'.station.team.fire now).1.randomOn_tickRandom now).trans hfired, ?_⟩
    show c'.seen ++ (c'.station.team.fire now).1.pastimes now = c.seen
    rw [Team.pastimes_of_off hfired, List.append_nil, hseen]
  by_cases hσ : σ.IsInstant
  · rw [Chronicler.live_of_isInstant c hσ]
    show c.seen ++ chronicler.doing c.station σ = c.seen
    by_cases htick : σ = .step .tickRandom
    · subst htick
      exact (congrArg (c.seen ++ ·) (Team.pastimes_of_off hoff)).trans (List.append_nil _)
    · rw [doing_of_ne c.station htick, List.append_nil]
  · cases σ with
    | move host => rfl
    | beginStop => exact absurd trivial hσ
    | endStop => exact absurd trivial hσ
    | step σ =>
        cases σ with
        | wait ms => exact (Clock.wait_keeps hsettle _ _ _ ⟨hoff, rfl⟩).2
        | advance ms => exact (Clock.advance_keeps hsettle _ _ ⟨hoff, rfl⟩).2
        | _ => exact absurd trivial hσ

end Pastime

/-! ### Turns that are interrupted -/

/-- Something that happens to a team with a loop: a step of its life, or an access of the loop. -/
inductive PlayStep where
  | live (σ : LifeStep)
  | loop

/-- A team whose loop may be amid a turn, with the record of the batches that the loop has started. -/
structure Play where
  chronicle : Chronicle Pastime
  turn : Option Turn := none

namespace Play

open Pastime (chronicler)

def start (s : Station) : Play := { chronicle := { station := s } }

def station (p : Play) : Station := p.chronicle.station

def started (p : Play) : List Pastime := p.chronicle.seen

def loop (p : Play) : Loop := p.chronicle.loop p.turn

/-- A step of the life of the team. The loop is stopped where the team begins to stop. -/
def live (p : Play) (σ : LifeStep) : Play where
  chronicle := chronicler.live p.chronicle σ
  turn :=
    match σ with
    | .beginStop => p.loop.stop.turn
    | _ => p.turn

/-- An access of the loop. -/
def next (p : Play) : Play :=
  let (l, notices) := p.loop.next p.station.host.now
  { chronicle := { station := p.station.change fun _ => (l.team, notices), seen := l.started }
    turn := l.turn }

def step (p : Play) : PlayStep → Play
  | .live σ => p.live σ
  | .loop => p.next

def run (p : Play) (steps : List PlayStep) : Play := steps.foldl step p

/-- Whether time does not go back. -/
def Onward (p : Play) : List PlayStep → Prop
  | [] => True
  | τ :: rest =>
    (∀ host, τ = .live (.move host) → p.station.host.now ≤ host.now) ∧ (p.step τ).Onward rest

variable {p : Play}

/-! ### What is kept -/

theorem next_now (p : Play) : p.next.station.host.now = p.station.host.now := Host.notifyAll_now ..

theorem loop_live {σ : LifeStep} (hstop : σ ≠ .beginStop) :
    (p.live σ).loop = (chronicler.live p.chronicle σ).loop p.turn := by
  have hturn : (p.live σ).turn = p.turn := by
    unfold live
    split
    · exact absurd rfl hstop
    · rfl
  rw [loop, hturn]
  rfl

variable {Q : Time → Loop → Prop}

/-- What is kept at each access of the loop, and beside it, is kept by each step. -/
theorem keeps_step (hkeeps : Loop.Keeps Q) {τ : PlayStep}
    (honward : ∀ host, τ = .live (.move host) → p.station.host.now ≤ host.now)
    (h : Q p.station.host.now p.loop ∧ p.loop.Awaits) :
    Q (p.step τ).station.host.now (p.step τ).loop ∧ (p.step τ).loop.Awaits := by
  cases τ with
  | loop =>
      show Q p.next.station.host.now p.next.loop ∧ p.next.loop.Awaits
      rw [next_now]
      exact hkeeps.awaits.next h
  | live σ =>
      have hlived := (Pastime.keeps_of_accesses hkeeps p.turn).live (c := p.chronicle) (σ := σ)
        (fun host hmove h => hkeeps.awaits.later (honward host (congrArg PlayStep.live hmove)) h) h
      by_cases hstop : σ = .beginStop
      · subst hstop
        exact hkeeps.awaits.stop hlived
      · show Q (p.live σ).station.host.now (p.live σ).loop ∧ (p.live σ).loop.Awaits
        rw [loop_live hstop]
        exact hlived

theorem keeps_run (hkeeps : Loop.Keeps Q) {steps : List PlayStep} (honward : p.Onward steps)
    (h : Q p.station.host.now p.loop ∧ p.loop.Awaits) :
    Q (p.run steps).station.host.now (p.run steps).loop := by
  induction steps generalizing p with
  | nil => exact h.1
  | cons τ rest ih => exact ih honward.2 (keeps_step hkeeps honward.1 h)

/-- In a step before which the switch is off the loop starts only what was owed. -/
theorem exists_started_step (τ : PlayStep) (hoff : p.station.team.randomOn = false) :
    ∃ more, (p.step τ).started = p.started ++ more ∧ more.length + (p.step τ).loop.owed ≤ p.loop.owed := by
  cases τ with
  | loop => exact Loop.exists_started_next p.station.host.now hoff
  | live σ =>
      refine ⟨[], (Pastime.seen_live_of_off σ hoff).trans (List.append_nil _).symm, ?_⟩
      by_cases hstop : σ = .beginStop
      · subst hstop
        exact ((Nat.zero_add _).trans p.loop.owed_stop).le
      · show 0 + (p.live σ).loop.owed ≤ p.loop.owed
        rw [loop_live hstop, Nat.zero_add]
        exact le_rfl

/-- During a stretch with the switch off the loop starts only what was owed. -/
theorem exists_started_run (stretch : List PlayStep)
    (hoff : ∀ front, front <+: stretch → (p.run front).station.team.randomOn = false) :
    ∃ more, (p.run stretch).started = p.started ++ more ∧ more.length ≤ p.loop.owed := by
  have hrun : ∃ more, (p.run stretch).started = p.started ++ more ∧
      more.length + (p.run stretch).loop.owed ≤ p.loop.owed := by
    induction stretch generalizing p with
    | nil => exact ⟨[], (List.append_nil _).symm, (Nat.zero_add _).le⟩
    | cons τ rest ih =>
        obtain ⟨first, hfirst, howed⟩ := exists_started_step (p := p) τ (hoff [] (List.nil_prefix ..))
        obtain ⟨more, hmore, hleft⟩ := ih (p := p.step τ) fun front hfront =>
          hoff (τ :: front) (List.cons_prefix_cons.mpr ⟨rfl, hfront⟩)
        refine ⟨first ++ more, ?_, ?_⟩
        · rw [← List.append_assoc, ← hfirst]
          exact hmore
        · have hleft' : more.length + (p.run (τ :: rest)).loop.owed ≤ (p.step τ).loop.owed := hleft
          rw [List.length_append]
          omega
  obtain ⟨more, hmore, howed⟩ := hrun
  exact ⟨more, hmore, (Nat.le_add_right ..).trans howed⟩

theorem run_append (before behind : List PlayStep) :
    p.run (before ++ behind) = (p.run before).run behind := List.foldl_append ..

/-- Where nobody interrupts the loop, its team lives as it does. -/
theorem run_live (life : List LifeStep) (hturn : p.turn = none) :
    p.run (life.map .live) = { chronicle := chronicler.liveAll p.chronicle life } := by
  induction life generalizing p with
  | nil =>
      show p = _
      rw [← hturn]
      rfl
  | cons σ rest ih =>
      refine ih (p := p.live σ) ?_
      show (match σ with | .beginStop => p.loop.stop.turn | _ => p.turn) = none
      split
      · exact Option.map_eq_none_iff.mpr hturn
      · exact hturn

end Play

/-! ### What the loop starts -/

namespace Station

variable {host : Host} {seed : Nat} {config : TeamConfig} {verbs : VerbTable}
  {telemetry : Option Telemetry} {s : Station}

/-- The loop of a team that is started waits for one interval; it does not run if there is none, or if it
is zero. -/
theorem start_paced (hstart : start host seed config verbs telemetry = .ok s) {interval : Nat}
    (hevery : config.randomMs = some interval) :
    s.host.now = host.now ∧ s.team.config = config ∧
      s.team.randomAt = if 0 < interval then some (host.now + interval) else none := by
  obtain ⟨team, notices, hteam, rfl⟩ := exists_of_start_eq_ok hstart
  obtain ⟨-, -, file, -, rfl⟩ := Team.exists_of_start_eq_ok hteam
  refine ⟨Host.notifyAll_now .., rfl, ?_⟩
  show Option.map _ _ = _
  rw [hevery, Option.filter_some]
  by_cases hpos : 0 < interval <;> simp [hpos]

end Station

namespace Play

open Pastime (chronicler)
open Station (start_paced)

variable {host : Host} {seed : Nat} {config : TeamConfig} {verbs : VerbTable}
  {telemetry : Option Telemetry} {s : Station}

/-- **Random verbs fill time that was seen idle.** Whatever happens between the accesses of the loop, and however
late it is, for each batch that it starts it has read the switch as on and then found no batch under way, so
that all it begins beside were scheduled since. No two of its batches are ever under way together, none begins
during a stretch with the switch off but one that was owed before, and there are no more of them than intervals
since the team was started. Where nobody interrupts a turn, the switch is on and the team is idle at each
start. -/
theorem random_fills_time_seen_idle (hstart : Station.start host seed config verbs telemetry = .ok s)
    {steps : List PlayStep} (honward : (start s).Onward steps) :
    let p := (start s).run steps
    (∀ b ∈ p.started, b.read.randomOn ∧ b.asked.scheduler.activeBatches = 0 ∧
      ∀ id, b.found.scheduler.isActive id → b.asked.scheduler.nextBatch ≤ id) ∧
    (p.started.Pairwise fun b b' => b.batch < b'.batch ∧
      ¬(p.station.team.scheduler.isActive b.batch ∧ p.station.team.scheduler.isActive b'.batch)) ∧
    (∀ before stretch, steps = before ++ stretch →
      (∀ front, front <+: stretch →
        ((start s).run (before ++ front)).station.team.randomOn = false) →
      ∃ more, p.started = ((start s).run before).started ++ more ∧
        more.length ≤ ((start s).run before).loop.owed) ∧
    (∀ interval, config.randomMs = some interval →
      p.started.length ≤ (p.station.host.now - host.now).toNat / interval) ∧
    ∀ life, steps = life.map .live → p.station = s.liveAll life ∧
      ∀ b ∈ p.started, b.found.randomOn ∧ b.found.scheduler.activeBatches = 0 := by
  intro p
  have hawaits : (start s).loop.Awaits := Loop.awaits_of_turn_eq_none rfl
  have hlone : p.loop.Lone :=
    keeps_run Loop.lone_keeps honward ⟨Loop.lone_of_started_eq_nil rfl rfl, hawaits⟩
  refine ⟨hlone.looked, hlone.apart, ?_, ?_, ?_⟩
  · rintro before stretch rfl hoff
    show ∃ more, ((start s).run (before ++ stretch)).started = _ ∧ _
    rw [run_append]
    refine exists_started_run stretch fun front hfront => ?_
    rw [← run_append]
    exact hoff front hfront
  · intro interval hinterval
    obtain ⟨hnow, hconfig, hat⟩ := start_paced hstart hinterval
    rcases Nat.eq_zero_or_pos interval with rfl | hpos
    · have hstill : p.loop.Still := keeps_run Loop.still_keeps honward ⟨⟨hat, rfl, rfl⟩, hawaits⟩
      have hnothing : p.started = [] := hstill.nothing
      rw [hnothing]
      exact Nat.zero_le _
    · have hpaced : (start s).loop.Paced host.now interval s.host.now := by
        refine Loop.paced_of_started_eq_nil rfl rfl (hconfig ▸ hinterval) (fun time htime => ?_) hnow.ge
        rw [if_pos hpos] at hat
        exact (Option.some.inj (hat.symm.trans htime)).le
      have hlater := keeps_run (Loop.paced_keeps host.now interval) honward ⟨hpaced, hawaits⟩
      exact hlater.length_le hpos
  · rintro life rfl
    have hlived : p = { chronicle := chronicler.liveAll { station := s } life } := run_live life rfl
    have hfound := Pastime.keeps_found.always (c := { station := s }) (List.forall_mem_nil _) life
    refine ⟨(congrArg station hlived).trans (Chronicler.station_liveAll _ life), fun b hb => ?_⟩
    obtain ⟨hon, hidle, -⟩ := hlone.looked b hb
    have hseen : p.started = (chronicler.liveAll { station := s } life).seen := congrArg started hlived
    rw [hseen] at hb
    obtain ⟨hread, hasked⟩ := hfound b hb
    exact ⟨hread ▸ hon, hasked ▸ hidle⟩

/-- A team that plays a random verb every 100 ms while it is idle. -/
def restless : Station :=
  { Station.twoKeys with member := { team := { Station.twoKeys.team with
      config := { Station.twoKeys.team.config with randomMs := some 100 }
      randomOn := true
      randomAt := some 100 } } }

/-- Steps between which the loop has seen all that it needs when a batch begins and the switch is turned off.
-/
def hasty : List PlayStep :=
  [.live (.move { restless.host with now := 100 }), .loop, .loop, .loop,
    .live (.step .injectRandom), .live (.step (.setRandom false)), .loop,
    .live (.move { restless.host with now := 2000 }), .loop, .loop]

theorem onward_hasty : (start restless).Onward hasty := by
  refine ⟨?_, nofun, nofun, nofun, nofun, nofun, nofun, ?_, nofun, nofun, trivial⟩
  all_goals
    rintro host hmove
    cases hmove
    decide +kernel

theorem random_fills_time_seen_idle_hasty :
    let p := (start restless).run hasty
    p.started.map Pastime.batch = [2] ∧ p.started.length ≤ 2000 / 100 := by
  have hstart : Station.start restless.host 0 restless.team.config restless.team.verbs none = .ok restless := rfl
  obtain ⟨-, -, -, hlength, -⟩ := random_fills_time_seen_idle hstart onward_hasty
  exact ⟨by decide +kernel, hlength 100 rfl⟩

/-- What the loop has seen need not be so when it starts: in these steps its batch begins beside another one,
and while the switch is off. -/
theorem random_started_behind_its_look : ¬∀ steps, (start restless).Onward steps →
    ∀ b ∈ ((start restless).run steps).started,
      b.found.randomOn ∧ b.found.scheduler.activeBatches = 0 := by
  intro hidle
  have hstarted : ((start restless).run hasty).started.map
      (fun b => (b.found.randomOn, b.found.scheduler.activeBatches)) = [(false, 1)] := by decide +kernel
  obtain ⟨b, hb, hfound⟩ := List.mem_map.mp (hstarted ▸ List.mem_singleton_self (false, 1))
  have hoff : b.found.randomOn = false := congrArg Prod.fst hfound
  exact Bool.false_ne_true (hoff.symm.trans (hidle hasty onward_hasty b hb).1)

end Play

end CrowdPad
