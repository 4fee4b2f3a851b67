import CrowdPad.Proofs.Team.Recent

/-! The loop that plays random verbs, one access at a time. In its turn it reads the switch, asks for batches
that are under way, and starts one; it keeps nobody from the team in between, so that the switch may be turned
off and other batches may begin before it starts its own. What it goes by is then what it has seen, and not
what it finds. Its own batches never meet all the same: they are all older than what it asks for. -/

namespace CrowdPad

/-- A batch that the loop starts, with the team as it has read its switch, as it has asked for batches under
way, and as it finds it when it starts. -/
structure Pastime where
  batch : Nat
  read : Team
  asked : Team
  found : Team

/-- What the loop has seen in its turn: that the switch is on, and that no batch is under way. -/
inductive Seen where
  | nothing
  | on (read : Team)
  | free (read asked : Team)

/-- A turn of the loop. -/
structure Turn where
  /-- When the next turn comes. None comes once the loop is stopped. -/
  next : Option Time
  seen : Seen := .nothing

/-- A team with the turn of its loop and the batches that the loop has started. -/
structure Loop where
  team : Team
  turn : Option Turn := none
  started : List Pastime := []

namespace Team

/-- A team whose loop has its turn: the time for another one does not come meanwhile. -/
def inTurn (t : Team) : Team := { t with randomAt := none }

/-- The batches that there are in one team and not in another one before it. -/
def newBatches (t t' : Team) : List Nat :=
  List.range' t.scheduler.nextBatch (t'.scheduler.nextBatch - t.scheduler.nextBatch)

end Team

namespace Loop

def withTeam (l : Loop) (team : Team) : Loop := { l with team }

/-- Ends a turn. -/
def rest (turn : Turn) (l : Loop) : Loop :=
  { l with team := { l.team with randomAt := turn.next }, turn := none }

/-- Starts a batch. -/
def start (read asked : Team) (now : Time) (l : Loop) : Loop × List Notice :=
  let (team, notices) := l.team.startRandom now
  let more := (l.team.newBatches team).map fun batch => { batch, read, asked, found := l.team }
  ({ l with team, started := l.started ++ more }, notices)

/-- One access of the loop to its team. -/
def next (now : Time) (l : Loop) : Loop × List Notice :=
  match l.turn with
  | none =>
    match l.team.nextTurn? now with
    | none => (l, [])
    | some next => ({ l with team := l.team.inTurn, turn := some { next } }, [])
  | some turn =>
    match turn.seen with
    | .nothing =>
      if l.team.randomOn then ({ l with turn := some { turn with seen := .on l.team } }, [])
      else (l.rest turn, [])
    | .on read =>
      if l.team.isIdle then ({ l with turn := some { turn with seen := .free read l.team } }, [])
      else (l.rest turn, [])
    | .free read asked =>
      let (l, notices) := l.start read asked now
      (l.rest turn, notices)

/-- A loop that is stopped ends with its turn. -/
def stop (l : Loop) : Loop := { l with turn := l.turn.map fun turn => { turn with next := none } }

/-! ### What an access does -/

section Access

variable {l : Loop} {turn turn' : Turn} {now : Time} {read asked : Team}

theorem turn_rest_ne : (l.rest turn).turn ≠ some turn' := (Option.some_ne_none turn').symm

theorem start_fst (read asked : Team) (now : Time) (l : Loop) : (l.start read asked now).1 = { l with
    team := (l.team.injectRandom now).1
    started := l.started ++ (l.team.newBatches (l.team.injectRandom now).1).map fun batch =>
      { batch, read, asked, found := l.team } } := rfl

theorem next_of_comes {time : Time} {interval : Nat} (hturn : l.turn = none)
    (hcomes : l.team.RandomComes now time interval) :
    l.next now = ({ l with
      team := l.team.inTurn
      turn := some { next := some (Team.nextRandomAt now time interval) } }, []) := by
  simp only [next, hturn, Team.nextTurn?_of_comes hcomes]

theorem next_of_nothing (hturn : l.turn = some turn) (hseen : turn.seen = .nothing) :
    l.next now = if l.team.randomOn then ({ l with turn := some { turn with seen := .on l.team } }, [])
      else (l.rest turn, []) := by
  simp only [next, hturn, hseen]

theorem next_of_on (hturn : l.turn = some turn) (hseen : turn.seen = .on read) :
    l.next now = if l.team.isIdle then ({ l with turn := some { turn with seen := .free read l.team } }, [])
      else (l.rest turn, []) := by
  simp only [next, hturn, hseen]

theorem next_of_free (hturn : l.turn = some turn) (hseen : turn.seen = .free read asked) :
    l.next now = ((l.start read asked now).1.rest turn, (l.start read asked now).2) := by
  simp only [next, hturn, hseen]

end Access

/-- What there is behind the start of a batch. -/
structure Begins (read asked : Team) (request : Request) (now : Time) (l l' : Loop) : Prop where
  started : l'.started = l.started ++ [{ batch := l.team.scheduler.nextBatch, read, asked, found := l.team }]
  scheduler : l'.team.scheduler = (l.team.scheduler.schedule [request] now).1
  config : l'.team.config = l.team.config

/-- A batch is started for a random verb, or there is none to be started. -/
@[elab_as_elim]
theorem start_cases {motive : Loop × List Notice → Prop} (read asked : Team) (now : Time) (l : Loop)
    (nothing : motive (l, []))
    (starts : ∀ request l' notices, l.Begins read asked request now l' → motive (l', notices)) :
    motive (l.start read asked now) := by
  rw [start, Team.startRandom]
  refine l.team.injectRandom_cases now ?_ ?_
  · simp only [Team.newBatches, Nat.sub_self, List.range'_zero, List.map_nil, List.append_nil]
    exact nothing
  · intro verb request _ _ payload
    refine starts request _ _ ⟨?_, rfl, rfl⟩
    show l.started ++ (List.range' l.team.scheduler.nextBatch
      (l.team.scheduler.nextBatch + 1 - l.team.scheduler.nextBatch)).map _ = _
    rw [Nat.add_sub_cancel_left]
    rfl

/-- What an access comes to: the loop waits, its turn comes, it goes on with it, it ends it, or it starts a
batch and ends its turn with that. -/
@[elab_as_elim]
theorem next_cases {motive : Loop × List Notice → Prop} (now : Time) (l : Loop)
    (waits : l.turn = none → (∀ time interval, ¬l.team.RandomComes now time interval) → motive (l, []))
    (comes : ∀ time interval, l.turn = none → l.team.RandomComes now time interval →
      motive ({ l with
        team := l.team.inTurn
        turn := some { next := some (Team.nextRandomAt now time interval) } }, []))
    (reads : ∀ turn, l.turn = some turn → turn.seen = .nothing → l.team.randomOn →
      motive ({ l with turn := some { turn with seen := .on l.team } }, []))
    (asks : ∀ turn read, l.turn = some turn → turn.seen = .on read → l.team.scheduler.activeBatches = 0 →
      motive ({ l with turn := some { turn with seen := .free read l.team } }, []))
    (rests : ∀ turn, l.turn = some turn → motive (l.rest turn, []))
    (starts : ∀ turn read asked request l' notices, l.turn = some turn → turn.seen = .free read asked →
      l.Begins read asked request now l' → motive (l'.rest turn, notices)) :
    motive (l.next now) := by
  cases hturn : l.turn with
  | none =>
      by_cases hcome : ∃ time interval, l.team.RandomComes now time interval
      · obtain ⟨time, interval, hcome⟩ := hcome
        rw [next_of_comes hturn hcome]
        exact comes time interval hturn hcome
      · have hnever : ∀ time interval, ¬l.team.RandomComes now time interval :=
          fun time interval h => hcome ⟨time, interval, h⟩
        simp only [next, hturn, Team.nextTurn?_of_not_comes hnever]
        exact waits hturn hnever
  | some turn =>
      cases hseen : turn.seen with
      | nothing =>
          rw [next_of_nothing hturn hseen]
          split
          · rename_i hon
            exact reads turn hturn hseen hon
          · exact rests turn hturn
      | on read =>
          rw [next_of_on hturn hseen]
          split
          · rename_i hidle
            exact asks turn read hturn hseen (of_decide_eq_true hidle)
          · exact rests turn hturn
      | free read asked =>
          rw [next_of_free hturn hseen]
          refine start_cases read asked now l (rests turn hturn) ?_
          exact fun request l' notices => starts turn read asked request l' notices hturn hseen

end Loop

/-! ### A turn without a break -/

namespace Team

variable (t : Team) (now : Time)

/-- A batch is started without a look at the time for the next one. -/
theorem injectRandom_withRandomAt (later : Option Time) :
    injectRandom now { t with randomAt := later } =
      ({ (t.injectRandom now).1 with randomAt := later }, (t.injectRandom now).2) := by
  have hverb : randomVerb? { t with randomAt := later } = t.randomVerb? := rfl
  rw [injectRandom, injectRandom, hverb]
  split
  · rfl
  · split <;> rfl

/-- The batches of a whole turn of the loop. -/
def pastimes : List Pastime :=
  (t.newBatches (t.tickRandom now).1).map fun batch =>
    { batch, read := t.inTurn, asked := t.inTurn, found := t.inTurn }

variable {t now}

theorem found_of_mem_pastimes : ∀ p ∈ t.pastimes now, p.read = p.found ∧ p.asked = p.found :=
  List.forall_mem_map.mpr fun _ _ => ⟨rfl, rfl⟩

theorem pastimes_eq_nil (h : (t.tickRandom now).1.scheduler = t.scheduler) : t.pastimes now = [] := by
  rw [pastimes, newBatches, h, Nat.sub_self, List.range'_zero, List.map_nil]

theorem tickRandom_of_plays {time : Time} {interval : Nat} (hcomes : t.RandomComes now time interval)
    (hon : t.randomOn) (hidle : t.isIdle) :
    (t.tickRandom now).1 =
      { (t.injectRandom now).1 with randomAt := some (nextRandomAt now time interval) } := by
  have hplays : (t.randomOn && t.scheduler.activeBatches = 0) = true := Bool.and_eq_true_iff.mpr ⟨hon, hidle⟩
  rw [tickRandom_of_comes hcomes, if_pos hplays, injectRandom_withRandomAt]

/-- A whole turn in which the loop does not find what it needs starts nothing. -/
theorem tickRandom_of_passes {time : Time} {interval : Nat} (hcomes : t.RandomComes now time interval)
    (hpasses : ¬(t.randomOn && t.isIdle) = true) :
    t.tickRandom now = ({ t with randomAt := some (nextRandomAt now time interval) }, []) ∧
      t.pastimes now = [] := by
  have hsame : t.tickRandom now = ({ t with randomAt := some (nextRandomAt now time interval) }, []) :=
    (tickRandom_of_comes hcomes).trans (if_neg hpasses)
  exact ⟨hsame, pastimes_eq_nil (congrArg (·.1.scheduler) hsame)⟩

/-- While the switch is off, a whole turn starts nothing. -/
theorem pastimes_of_off (hoff : t.randomOn = false) : t.pastimes now = [] := by
  refine pastimes_eq_nil (t.tickRandom_cases now ?_ ?_ ?_)
  · exact fun _ => rfl
  · exact fun _ _ _ => rfl
  · intro time interval _ hon _
    rw [hoff] at hon
    cases hon

end Team

namespace Loop

variable {l : Loop} {turn : Turn} {now : Time}

/-- **A turn without a break.** Where nothing comes between the accesses of a turn, they make the whole turn
of the running program. -/
theorem next_uninterrupted (now : Time) (hturn : l.turn = none) : ∃ n ≤ 4,
    (fun l : Loop => (l.next now).1)^[n] l =
      { team := (l.team.tickRandom now).1, started := l.started ++ l.team.pastimes now } := by
  obtain ⟨team, turn, started⟩ := l
  cases hturn
  by_cases hcome : ∃ time interval, team.RandomComes now time interval
  · obtain ⟨time, interval, hcome⟩ := hcome
    let turn : Turn := { next := some (Team.nextRandomAt now time interval) }
    have hfirst : next now { team, started } = ({ team := team.inTurn, turn := some turn, started }, []) :=
      next_of_comes rfl hcome
    by_cases hon : team.randomOn
    · have hsecond : next now { team := team.inTurn, turn := some turn, started } =
          ({ team := team.inTurn, turn := some { turn with seen := .on team.inTurn }, started }, []) :=
        (next_of_nothing rfl rfl).trans (if_pos hon)
      by_cases hidle : team.isIdle
      · have hthird : next now { team := team.inTurn, turn := some { turn with seen := .on team.inTurn }, started } =
            ({ team := team.inTurn, turn := some { turn with seen := .free team.inTurn team.inTurn }, started },
              []) := by
          rw [next_of_on rfl rfl]
          exact if_pos hidle
        have hplayed := Team.tickRandom_of_plays hcome hon hidle
        have hinject : Team.injectRandom now team.inTurn = _ := team.injectRandom_withRandomAt now none
        refine ⟨4, le_rfl, ?_⟩
        show (next now (next now (next now (next now { team, started }).1).1).1).1 = _
        rw [hfirst, hsecond, hthird, next_of_free rfl rfl, Team.pastimes, hplayed, start_fst, hinject]
        rfl
      · obtain ⟨hpassed, hnone⟩ := Team.tickRandom_of_passes hcome fun hplays =>
          hidle (Bool.and_eq_true_iff.mp hplays).2
        refine ⟨3, by decide, ?_⟩
        show (next now (next now (next now { team, started }).1).1).1 = _
        rw [hfirst, hsecond, hpassed, hnone, List.append_nil, next_of_on rfl rfl]
        exact congrArg Prod.fst (if_neg hidle)
    · obtain ⟨hpassed, hnone⟩ := Team.tickRandom_of_passes hcome fun hplays =>
        hon (Bool.and_eq_true_iff.mp hplays).1
      refine ⟨2, by decide, ?_⟩
      show (next now (next now { team, started }).1).1 = _
      rw [hfirst, hpassed, hnone, List.append_nil, next_of_nothing rfl rfl]
      exact congrArg Prod.fst (if_neg hon)
  · have hsame := Team.tickRandom_of_not_comes fun time interval h => hcome ⟨time, interval, h⟩
    refine ⟨0, by decide, ?_⟩
    rw [hsame, Team.pastimes_eq_nil (congrArg (·.1.scheduler) hsame), List.append_nil]
    rfl

end Loop

/-! ### What is done beside the loop -/

namespace Team

variable (t : Team) (now : Time)

/-- What the loop goes by, besides the batches under way. -/
def pace : Bool × Option Time × Option Nat := (t.randomOn, t.randomAt, t.config.randomMs)

theorem pace_injectRandom : (t.injectRandom now).1.pace = t.pace :=
  t.injectRandom_cases now rfl fun _ _ _ _ _ => rfl

theorem pace_handleMessage (author text : String) (reference : Time) :
    (t.handleMessage now author text reference).1.pace = t.pace := by
  refine t.handleMessage_cases now author text reference ?_ ?_ ?_ ?_
  · exact fun _ => rfl
  · exact fun _ _ => rfl
  · exact fun _ _ _ => rfl
  · intro _ _ _
    rw [scheduleMessage_eq]
    rfl

theorem randomOn_tickRandom : (t.tickRandom now).1.randomOn = t.randomOn := by
  refine t.tickRandom_cases now ?_ ?_ ?_
  · exact fun _ => rfl
  · exact fun _ _ _ => rfl
  · intro time interval _ _ _
    exact congrArg (·.1)
      (pace_injectRandom { t with randomAt := some (nextRandomAt now time interval) } now)

/-- What is done to a team beside the loop: times do not come sooner, and batches that are over stay over.
-/
structure Beside (t t' : Team) : Prop where
  every : t'.config.randomMs = t.config.randomMs
  at_time : ∀ later, t'.randomAt = some later → ∃ time, t.randomAt = some time ∧ time ≤ later
  ages : t.scheduler.Ages t'.scheduler

variable {t now} {t' : Team}

theorem beside_of_pace (hpace : t'.pace = t.pace) (hages : t.scheduler.Ages t'.scheduler) :
    t.Beside t' := by
  have hat : t'.randomAt = t.randomAt := congrArg (·.2.1) hpace
  exact ⟨congrArg (·.2.2) hpace, fun later hlater => ⟨later, hat ▸ hlater, Int.le_refl later⟩, hages⟩

theorem Beside.trans {t'' : Team} (h : t.Beside t') (h' : t'.Beside t'') : t.Beside t'' := by
  refine ⟨h'.every.trans h.every, fun latest hlatest => ?_, h.ages.trans h'.ages⟩
  obtain ⟨later, hlater, hle⟩ := h'.at_time latest hlatest
  obtain ⟨time, htime, hle'⟩ := h.at_time later hlater
  exact ⟨time, htime, hle'.trans hle⟩

theorem Beside.randomAt_eq_none (h : t.Beside t') (hat : t.randomAt = none) : t'.randomAt = none := by
  cases hlater : t'.randomAt with
  | none => rfl
  | some later =>
      obtain ⟨time, htime, -⟩ := h.at_time later hlater
      rw [hat] at htime
      cases htime

theorem not_comes (hat : t.randomAt = none) (time : Time) (interval : Nat) : ¬t.RandomComes now time interval := by
  intro hcomes
  have htime := hcomes.at_time
  rw [hat] at htime
  cases htime

theorem beside_fire (t : Team) (now : Time) : t.Beside (t.fire now).1 :=
  beside_of_pace rfl (t.ages_fire now).scheduler

theorem beside_work (t : Team) (now : Time) (network : Attempt) (device : Device) :
    t.Beside (t.work now network device).1 :=
  beside_of_pace rfl (.refl _)

theorem beside_retire (t : Team) : t.Beside { t with playback := t.playback.retire.1 } :=
  beside_of_pace rfl t.ages_retire.scheduler

/-- Behind the loop edges are handed over and worked off, and batches are taken out. -/
theorem beside_settle (t : Team) (now : Time) (network : Attempt) (device : Device) :
    ((t.fire now).1.tickRandom now).1.Beside (t.settle now network device).1 := by
  have hagain := beside_fire ((t.fire now).1.tickRandom now).1 now
  have hworked := hagain.trans (beside_work _ now network device)
  exact hworked.trans (beside_retire _)

end Team

/-- Where no batch was under way, those that are were scheduled since. -/
theorem Scheduler.Ages.le_of_isActive {s s' : Scheduler} (h : s.Ages s') (hidle : s.activeBatches = 0) {id : Nat}
    (hactive : s'.isActive id) : s.nextBatch ≤ id := by
  by_contra hold
  obtain ⟨b, hb, -⟩ := Scheduler.isActive_iff.mp (h.past id (not_le.mp hold) hactive)
  rw [List.length_eq_zero_iff.mp hidle] at hb
  cases hb

namespace Loop

variable {l : Loop} {turn : Turn} {now : Time}

/-- Whether what holds of a loop at a moment is kept: as time passes, by what is done beside the loop, by its
stop, and by its own accesses. -/
structure Keeps (Q : Time → Loop → Prop) : Prop where
  later {now later : Time} {l : Loop} : now ≤ later → Q now l → Q later l
  beside {now : Time} {l : Loop} {team : Team} : l.team.Beside team → Q now l → Q now (l.withTeam team)
  stop {now : Time} {l : Loop} : Q now l → Q now l.stop
  next {now : Time} {l : Loop} : Q now l → Q now (l.next now).1

/-! ### Turns do not meet -/

/-- Whether the time for a turn does not come during another one. -/
def Awaits (l : Loop) : Prop := l.turn.isSome → l.team.randomAt = none

theorem awaits_of_turn_eq_none (hturn : l.turn = none) : l.Awaits := by
  intro hsome
  rw [hturn] at hsome
  cases hsome

theorem Awaits.beside {team : Team} (hbeside : l.team.Beside team) (h : l.Awaits) : (l.withTeam team).Awaits :=
  fun hturn => hbeside.randomAt_eq_none (h hturn)

theorem Awaits.stop (h : l.Awaits) : l.stop.Awaits := fun hturn => h ((Option.isSome_map ..).symm.trans hturn)

theorem Awaits.next (h : l.Awaits) : (l.next now).1.Awaits := by
  refine next_cases (motive := fun p => p.1.Awaits) now l ?_ ?_ ?_ ?_ ?_ ?_
  · exact fun _ _ => h
  · exact fun _ _ _ _ _ => rfl
  · exact fun turn hturn _ _ _ => h (Option.isSome_of_eq_some hturn)
  · exact fun turn read hturn _ _ _ => h (Option.isSome_of_eq_some hturn)
  · exact fun _ _ => nofun
  · exact fun _ _ _ _ _ _ _ _ _ => nofun

variable {Q : Time → Loop → Prop}

theorem Keeps.awaits (hkeeps : Keeps Q) : Keeps fun now l => Q now l ∧ l.Awaits where
  later hle h := ⟨hkeeps.later hle h.1, h.2⟩
  beside hbeside h := ⟨hkeeps.beside hbeside h.1, h.2.beside hbeside⟩
  stop h := ⟨hkeeps.stop h.1, h.2.stop⟩
  next h := ⟨hkeeps.next h.1, h.2.next⟩

/-- What the accesses of the loop keep a whole turn keeps. Amid another turn there is none. -/
theorem Keeps.tick (hkeeps : Keeps Q) (hawaits : l.Awaits) (h : Q now l) :
    Q now { l with
      team := (l.team.tickRandom now).1
      started := l.started ++ l.team.pastimes now } := by
  cases hturn : l.turn with
  | none =>
      obtain ⟨n, -, hplayed⟩ := next_uninterrupted now hturn
      have hiterated := Function.Iterate.rec (Q now) h (fun _ => hkeeps.next) n
      rw [hplayed] at hiterated
      exact hiterated
  | some turn =>
      have hnever : ∀ time interval, ¬l.team.RandomComes now time interval :=
        Team.not_comes (hawaits (Option.isSome_of_eq_some hturn))
      have hsame := Team.tickRandom_of_not_comes hnever
      rw [Team.pastimes_eq_nil (congrArg (·.1.scheduler) hsame), List.append_nil, hsame, ← hturn]
      exact h

/-! ### The batches of the loop -/

/-- What the loop has seen in its turn is so, or was so before all that has happened since. -/
def Saw (l : Loop) : Seen → Prop
  | .nothing => True
  | .on read => read.randomOn
  | .free read asked =>
    read.randomOn ∧ asked.scheduler.activeBatches = 0 ∧ asked.scheduler.Ages l.team.scheduler ∧
      ∀ p ∈ l.started, p.batch < asked.scheduler.nextBatch

/-- Whether the loop has looked before each start, and no two of its batches are under way together. -/
structure Lone (l : Loop) : Prop where
  looked : ∀ p ∈ l.started, p.read.randomOn ∧ p.asked.scheduler.activeBatches = 0 ∧
    ∀ id, p.found.scheduler.isActive id → p.asked.scheduler.nextBatch ≤ id
  known : ∀ p ∈ l.started, p.batch < l.team.scheduler.nextBatch
  apart : l.started.Pairwise fun p q =>
    p.batch < q.batch ∧ ¬(l.team.scheduler.isActive p.batch ∧ l.team.scheduler.isActive q.batch)
  saw : ∀ turn, l.turn = some turn → l.Saw turn.seen

theorem lone_of_started_eq_nil (hstarted : l.started = []) (hturn : l.turn = none) : l.Lone := by
  refine ⟨?_, ?_, ?_, fun turn hsome => ?_⟩
  · rw [hstarted]
    exact List.forall_mem_nil _
  · rw [hstarted]
    exact List.forall_mem_nil _
  · rw [hstarted]
    exact .nil
  · rw [hturn] at hsome
    cases hsome

theorem Lone.same {l' : Loop} (h : l.Lone) (hstarted : l'.started = l.started)
    (hscheduler : l'.team.scheduler = l.team.scheduler)
    (hsaw : ∀ turn, l'.turn = some turn → l'.Saw turn.seen) : l'.Lone := by
  refine ⟨?_, ?_, ?_, hsaw⟩
  · rw [hstarted]
    exact h.looked
  · rw [hstarted, hscheduler]
    exact h.known
  · rw [hstarted, hscheduler]
    exact h.apart

/-- A batch that begins is later than all that the loop has asked for, among them its own. -/
theorem Lone.begins {l' : Loop} {read asked : Team} {request : Request} (h : l.Lone)
    (hsaw : l.Saw (.free read asked)) (hbegins : l.Begins read asked request now l')
    (hturn : l'.turn = none) : l'.Lone := by
  obtain ⟨hon, hidle, hages, hpast⟩ := hsaw
  have hages' : asked.scheduler.Ages l'.team.scheduler := by
    rw [hbegins.scheduler]
    exact hages.trans (l.team.scheduler.ages_schedule [request] now)
  have hnumber : l'.team.scheduler.nextBatch = l.team.scheduler.nextBatch + 1 := by
    rw [hbegins.scheduler]
    rfl
  have hover : ∀ p ∈ l.started, ¬l'.team.scheduler.isActive p.batch := fun p hp hactive =>
    absurd (hages'.le_of_isActive hidle hactive) (not_le.mpr (hpast p hp))
  refine ⟨?_, ?_, ?_, fun turn hsome => ?_⟩
  · rw [hbegins.started]
    refine List.forall_mem_append.mpr ⟨h.looked, List.forall_mem_singleton.mpr ?_⟩
    exact ⟨hon, hidle, fun id hactive => hages.le_of_isActive hidle hactive⟩
  · rw [hbegins.started, hnumber]
    refine List.forall_mem_append.mpr ⟨fun p hp => ?_, List.forall_mem_singleton.mpr ?_⟩
    · exact (h.known p hp).trans (Nat.lt_succ_self _)
    · exact Nat.lt_succ_self _
  · rw [hbegins.started]
    refine List.pairwise_append.mpr ⟨?_, List.pairwise_singleton _ _, fun p hp => ?_⟩
    · refine h.apart.imp_of_mem ?_
      rintro p q hp - ⟨hlt, -⟩
      exact ⟨hlt, fun hactive => hover p hp hactive.1⟩
    · exact List.forall_mem_singleton.mpr ⟨h.known p hp, fun hactive => hover p hp hactive.1⟩
  · rw [hturn] at hsome
    cases hsome

/-- What has been seen stays seen. -/
theorem Saw.mono (l' : Loop) {seen : Seen} (hstarted : l'.started = l.started)
    (hages : l.team.scheduler.Ages l'.team.scheduler) (h : l.Saw seen) : l'.Saw seen := by
  cases seen with
  | nothing => trivial
  | on read => exact h
  | free read asked =>
      obtain ⟨hon, hidle, hbefore, hpast⟩ := h
      refine ⟨hon, hidle, hbefore.trans hages, ?_⟩
      rw [hstarted]
      exact hpast

theorem Lone.next (h : l.Lone) : (l.next now).1.Lone := by
  refine next_cases (motive := fun p => p.1.Lone) now l ?_ ?_ ?_ ?_ ?_ ?_
  · exact fun _ _ => h
  · intro time interval _ _
    refine h.same rfl rfl fun _ hturn => ?_
    obtain rfl := Option.some.inj hturn
    trivial
  · intro turn _ _ hon
    refine h.same rfl rfl fun _ hturn => ?_
    obtain rfl := Option.some.inj hturn
    exact hon
  · intro turn read hturn hseen hidle
    have hsaw := h.saw turn hturn
    rw [hseen] at hsaw
    refine h.same rfl rfl fun _ hturn => ?_
    obtain rfl := Option.some.inj hturn
    exact ⟨hsaw, hidle, .refl _, h.known⟩
  · exact fun turn _ => h.same rfl rfl fun _ hsome => absurd hsome turn_rest_ne
  · intro turn read asked request l' notices hturn hseen hbegins
    have hsaw := h.saw turn hturn
    rw [hseen] at hsaw
    have hrested : Begins read asked request now l (l'.rest turn) :=
      ⟨hbegins.started, hbegins.scheduler, hbegins.config⟩
    exact h.begins hsaw hrested rfl

theorem lone_keeps : Keeps fun _ => Lone where
  later _ h := h
  beside {_ l team} hbeside h := by
    have hpast := hbeside.ages.past
    refine ⟨h.looked, fun p hp => (h.known p hp).trans_le hbeside.ages.numbers, ?_, fun turn hturn => ?_⟩
    · refine h.apart.imp_of_mem ?_
      rintro p q hp hq ⟨hlt, hapart⟩
      refine ⟨hlt, fun ⟨hactive, hactive'⟩ => hapart ⟨?_, ?_⟩⟩
      · exact hpast p.batch (h.known p hp) hactive
      · exact hpast q.batch (h.known q hq) hactive'
    · exact Saw.mono (l := l) (l.withTeam team) rfl hbeside.ages (h.saw turn hturn)
  stop {_ l} h := by
    refine h.same rfl rfl fun turn hturn => ?_
    obtain ⟨before, hbefore, rfl⟩ := Option.map_eq_some_iff.mp hturn
    exact h.saw before hbefore
  next h := h.next

/-! ### What is owed -/

/-- How many batches the loop may start without a look at the switch. -/
def owed (l : Loop) : Nat :=
  match l.turn with
  | none => 0
  | some turn =>
    match turn.seen with
    | .nothing => 0
    | _ => 1

theorem owed_stop (l : Loop) : l.stop.owed = l.owed := by
  obtain ⟨team, _ | ⟨next, seen⟩, started⟩ := l
  · rfl
  · cases seen <;> rfl

/-- While the switch is off, a batch that begins was owed. -/
theorem exists_started_next (now : Time) (hoff : l.team.randomOn = false) :
    ∃ more, (l.next now).1.started = l.started ++ more ∧ more.length + (l.next now).1.owed ≤ l.owed := by
  have hnone : l.started = l.started ++ [] := (List.append_nil _).symm
  refine next_cases (motive := fun p => ∃ more, p.1.started = l.started ++ more ∧
    more.length + p.1.owed ≤ l.owed) now l ?_ ?_ ?_ ?_ ?_ ?_
  · exact fun _ _ => ⟨[], hnone, (Nat.zero_add _).le⟩
  · exact fun _ _ _ _ => ⟨[], hnone, Nat.zero_le _⟩
  · intro turn _ _ hon
    rw [hoff] at hon
    cases hon
  · intro turn read hturn hseen _
    refine ⟨[], hnone, ?_⟩
    have howed : l.owed = 1 := by simp only [owed, hturn, hseen]
    exact howed.symm.le
  · exact fun _ _ => ⟨[], hnone, Nat.zero_le _⟩
  · intro turn read asked request l' notices hturn hseen hbegins
    have howed : l.owed = 1 := by simp only [owed, hturn, hseen]
    exact ⟨_, hbegins.started, howed.symm.le⟩

/-! ### The pace of the loop -/

/-- Whether for each batch that the loop has started an interval has passed, and for the next one another
has to pass. -/
structure Paced (began : Time) (interval : Nat) (now : Time) (l : Loop) : Prop where
  every : l.team.config.randomMs = some interval
  due : ∀ time, l.team.randomAt = some time → began + ((l.started.length + 1) * interval : Nat) ≤ time
  past : began + (l.started.length * interval : Nat) ≤ now
  turn : ∀ turn, l.turn = some turn → began + ((l.started.length + 1) * interval : Nat) ≤ now ∧
    ∀ later, turn.next = some later → began + ((l.started.length + 2) * interval : Nat) ≤ later

theorem le_nextRandomAt {time : Time} (interval : Nat) (hdue : time ≤ now) :
    time + interval ≤ Team.nextRandomAt now time interval := by
  unfold Team.nextRandomAt
  split
  · exact Int.add_le_add_right hdue _
  · exact Int.le_refl _

variable {began : Time} {interval : Nat}

theorem paced_of_started_eq_nil (hstarted : l.started = []) (hturn : l.turn = none)
    (hevery : l.team.config.randomMs = some interval)
    (hat : ∀ time, l.team.randomAt = some time → began + interval ≤ time) (hbegan : began ≤ now) :
    l.Paced began interval now := by
  refine ⟨hevery, fun time htime => ?_, ?_, fun turn hsome => ?_⟩
  · rw [hstarted, List.length_nil, Nat.zero_add, Nat.one_mul]
    exact hat time htime
  · rw [hstarted, List.length_nil, Nat.zero_mul, Int.natCast_zero, Int.add_zero]
    exact hbegan
  · rw [hturn] at hsome
    cases hsome

theorem Paced.next (h : l.Paced began interval now) : (l.next now).1.Paced began interval now := by
  refine next_cases (motive := fun p => p.1.Paced began interval now) now l ?_ ?_ ?_ ?_ ?_ ?_
  · exact fun _ _ => h
  · intro time every hturn hcomes
    obtain rfl := Option.some.inj (hcomes.every.symm.trans h.every)
    have hbefore := h.due time hcomes.at_time
    refine ⟨h.every, fun _ hat => absurd hat.symm (Option.some_ne_none _), h.past, fun _ hturn => ?_⟩
    obtain rfl := Option.some.inj hturn
    refine ⟨hbefore.trans hcomes.due, fun later hlater => ?_⟩
    obtain rfl := Option.some.inj hlater
    calc began + ((l.started.length + 2) * every : Nat)
        = began + ((l.started.length + 1) * every : Nat) + every := by
          push_cast
          ring
      _ ≤ time + every := Int.add_le_add_right hbefore _
      _ ≤ Team.nextRandomAt now time every := le_nextRandomAt every hcomes.due
  · intro turn hturn _ _
    refine ⟨h.every, h.due, h.past, fun _ hsome => ?_⟩
    obtain rfl := Option.some.inj hsome
    exact h.turn turn hturn
  · intro turn read hturn _ _
    refine ⟨h.every, h.due, h.past, fun _ hsome => ?_⟩
    obtain rfl := Option.some.inj hsome
    exact h.turn turn hturn
  · intro turn hturn
    refine ⟨h.every, fun later hlater => ?_, h.past, fun _ hsome => absurd hsome turn_rest_ne⟩
    calc began + ((l.started.length + 1) * interval : Nat)
        ≤ began + ((l.started.length + 2) * interval : Nat) := by
          gcongr
          omega
      _ ≤ later := (h.turn turn hturn).2 later hlater
  · intro turn read asked request l' notices hturn _ hbegins
    have hlength : l'.started.length = l.started.length + 1 := by
      rw [hbegins.started, List.length_append, List.length_singleton]
    refine ⟨?_, fun later hlater => ?_, ?_, fun _ hsome => absurd hsome turn_rest_ne⟩
    · exact (congrArg TeamConfig.randomMs hbegins.config).trans h.every
    · show began + ((l'.started.length + 1) * interval : Nat) ≤ later
      rw [hlength]
      exact (h.turn turn hturn).2 later hlater
    · show began + (l'.started.length * interval : Nat) ≤ now
      rw [hlength]
      exact (h.turn turn hturn).1

theorem paced_keeps (began : Time) (interval : Nat) : Keeps (Paced began interval) where
  later hle h := ⟨h.every, h.due, h.past.trans hle, fun turn hturn =>
    ⟨(h.turn turn hturn).1.trans hle, (h.turn turn hturn).2⟩⟩
  beside {_ l team} hbeside h := by
    refine ⟨hbeside.every.trans h.every, fun later hlater => ?_, h.past, h.turn⟩
    obtain ⟨time, htime, hle⟩ := hbeside.at_time later hlater
    exact (h.due time htime).trans hle
  stop {_ l} h := by
    refine ⟨h.every, h.due, h.past, fun turn hturn => ?_⟩
    obtain ⟨before, hbefore, rfl⟩ := Option.map_eq_some_iff.mp hturn
    exact ⟨(h.turn before hbefore).1, fun _ hlater => absurd hlater.symm (Option.some_ne_none _)⟩
  next h := h.next

/-- So many batches at most start in some time. -/
theorem Paced.length_le (h : l.Paced began interval now) (hpos : 0 < interval) :
    l.started.length ≤ (now - began).toNat / interval := by
  rw [Nat.le_div_iff_mul_le hpos]
  have hpast := h.past
  lia

/-- A loop that never has a turn. -/
structure Still (l : Loop) : Prop where
  never : l.team.randomAt = none
  turn : l.turn = none
  nothing : l.started = []

theorem still_keeps : Keeps fun _ => Still where
  later _ h := h
  beside hbeside h := ⟨hbeside.randomAt_eq_none h.never, h.turn, h.nothing⟩
  stop {_ l} h := ⟨h.never, Option.map_eq_none_iff.mpr h.turn, h.nothing⟩
  next {now l} h := by
    rw [Loop.next, h.turn]
    simp only [Team.nextTurn?_of_not_comes (Team.not_comes h.never)]
    exact h

end Loop

end CrowdPad
