import CrowdPad.Proofs.Team.Life
import CrowdPad.Proofs.Team.Repeats

/-! What the counters of a team tell. They are added up from what those who deal with the team see of it:
the answers to their messages, the macros that it refuses, the cancels and resets that they asked for, and
the numbers of the batches that no message started. Nothing that is done to a team, a reset among it, makes
a counter smaller. -/

namespace CrowdPad

/-! ### Sums of counters -/

namespace TeamCounters

def plus (c more : TeamCounters) : TeamCounters where
  messages := c.messages + more.messages
  duplicates := c.duplicates + more.duplicates
  batches := c.batches + more.batches
  requests := c.requests + more.requests
  dropped := c.dropped + more.dropped
  randomInjections := c.randomInjections + more.randomInjections
  cancellations := c.cancellations + more.cancellations

@[simp] theorem plus_zero (c : TeamCounters) : c.plus {} = c := rfl

theorem plus_assoc (c more most : TeamCounters) : (c.plus more).plus most = c.plus (more.plus most) := by
  simp only [plus, Nat.add_assoc]

/-- Whether no counter is smaller than before. -/
structure Grows (c later : TeamCounters) : Prop where
  messages : c.messages ≤ later.messages
  duplicates : c.duplicates ≤ later.duplicates
  batches : c.batches ≤ later.batches
  requests : c.requests ≤ later.requests
  dropped : c.dropped ≤ later.dropped
  randomInjections : c.randomInjections ≤ later.randomInjections
  cancellations : c.cancellations ≤ later.cancellations

theorem grows_plus (c more : TeamCounters) : c.Grows (c.plus more) where
  messages := Nat.le_add_right ..
  duplicates := Nat.le_add_right ..
  batches := Nat.le_add_right ..
  requests := Nat.le_add_right ..
  dropped := Nat.le_add_right ..
  randomInjections := Nat.le_add_right ..
  cancellations := Nat.le_add_right ..

end TeamCounters

/-! ### Answers -/

namespace MessageOutcome

/-- Whether commands of the message were looked at and none of them was left. -/
def isNothingToRun : MessageOutcome → Bool
  | .nothingToRun _ => true
  | _ => false

def isScheduled : MessageOutcome → Bool
  | .scheduled .. => true
  | _ => false

/-- The number of requests that the answer speaks of. -/
def requests : MessageOutcome → Nat
  | .scheduled _ requests _ => requests
  | _ => 0

/-- The number of dropped commands that the answer speaks of. -/
def dropped : MessageOutcome → Nat
  | .nothingToRun dropped => dropped
  | .scheduled _ _ dropped => dropped
  | _ => 0

/-- A message has one of four answers. -/
theorem length_eq_count (answers : List MessageOutcome) : answers.length =
    answers.count .notACommand + answers.count .duplicate + answers.countP isNothingToRun +
      answers.countP isScheduled := by
  induction answers with
  | nil => rfl
  | cons answer rest ih =>
      rw [List.length_cons, ih, List.count_cons, List.count_cons, List.countP_cons, List.countP_cons]
      cases answer <;> simp [isNothingToRun, isScheduled] <;> omega

end MessageOutcome

/-- What those who deal with a team see of it. -/
structure Account where
  /-- The answers to messages. -/
  answers : List MessageOutcome := []
  /-- Why stored macros are refused. -/
  refused : List MacroError := []
  /-- How often all batches are cancelled on demand. -/
  cancels : Nat := 0
  /-- How often the team is reset. -/
  resets : Nat := 0
  /-- The batches of random verbs. -/
  random : List Nat := []

namespace Account

def append (a more : Account) : Account where
  answers := a.answers ++ more.answers
  refused := a.refused ++ more.refused
  cancels := a.cancels + more.cancels
  resets := a.resets + more.resets
  random := a.random ++ more.random

/-- What the counters come to. -/
def counters (a : Account) : TeamCounters where
  messages := a.answers.length
  duplicates := a.answers.count .duplicate
  batches := a.answers.countP MessageOutcome.isScheduled
  requests := (a.answers.map MessageOutcome.requests).sum
  dropped := (a.answers.map MessageOutcome.dropped).sum + a.refused.length
  randomInjections := a.random.length
  cancellations := a.cancels + a.resets

theorem counters_append (a more : Account) : (a.append more).counters = a.counters.plus more.counters := by
  simp only [counters, append, TeamCounters.plus, List.length_append, List.count_append,
    List.countP_append, List.map_append, List.sum_append, TeamCounters.mk.injEq, true_and]
  omega

end Account

/-! ### What is counted -/

namespace Team

/-- Whether a team has counted so much more than another one, and one random verb for each batch that was
started since. -/
structure Adds (more : TeamCounters) (t t' : Team) : Prop where
  numbers : t.scheduler.nextBatch ≤ t'.scheduler.nextBatch
  counters : t'.counters = t.counters.plus { more with
    randomInjections := t'.scheduler.nextBatch - t.scheduler.nextBatch }

theorem adds_of_nextBatch {more : TeamCounters} {t t' : Team}
    (hnext : t'.scheduler.nextBatch = t.scheduler.nextBatch)
    (hcounters : t'.counters = t.counters.plus { more with randomInjections := 0 }) :
    Adds more t t' := by
  refine ⟨hnext.ge, ?_⟩
  rw [hcounters, hnext, Nat.sub_self]

theorem Adds.refl (t : Team) : Adds {} t t := adds_of_nextBatch rfl rfl

theorem Adds.trans {t t' t'' : Team} (h : Adds {} t t') (h' : Adds {} t' t'') : Adds {} t t'' := by
  refine ⟨h.numbers.trans h'.numbers, ?_⟩
  have hnumbers := Nat.sub_add_sub_cancel h'.numbers h.numbers
  rw [h'.counters, h.counters, TeamCounters.plus_assoc, ← hnumbers, Nat.add_comm]
  rfl

variable (t : Team) (now : Time)

/-! #### Time -/

theorem adds_fire : Adds {} t (t.fire now).1 := adds_of_nextBatch rfl rfl

theorem adds_injectRandom : Adds {} t (t.injectRandom now).1 := by
  refine t.injectRandom_cases now ?_ ?_
  · exact .refl t
  · intro _ _ _ _ _
    refine ⟨Nat.le_succ _, ?_⟩
    show _ = t.counters.plus { randomInjections := t.scheduler.nextBatch + 1 - t.scheduler.nextBatch }
    rw [Nat.add_sub_cancel_left]
    rfl

theorem adds_tickRandom : Adds {} t (t.tickRandom now).1 := by
  refine t.tickRandom_cases now ?_ ?_ ?_
  · exact fun _ => .refl t
  · exact fun _ _ _ => adds_of_nextBatch rfl rfl
  · intro time interval _ _ _
    have hnext : Adds {} t { t with randomAt := some (nextRandomAt now time interval) } :=
      adds_of_nextBatch rfl rfl
    exact hnext.trans (adds_injectRandom _ now)

theorem adds_settle (network : Attempt) (device : Device) :
    Adds {} t (t.settle now network device).1 := by
  have hrandom := (t.adds_fire now).trans (adds_tickRandom _ now)
  have hagain := hrandom.trans (adds_fire _ now)
  exact hagain.trans (adds_of_nextBatch rfl rfl)

/-! #### Macros -/

variable {t now} {files files' : Files} {t' : Team} {notices : List Notice}

theorem adds_withMacroFile (file : MacroFile) :
    Adds { dropped := (MacroTable.ofSteps t.verbs t.config.macros.limits file.macros).2.length } t
      (t.withMacroFile now file) := by
  refine adds_of_nextBatch rfl ?_
  exact congrArg (fun count => t.counters.plus { dropped := count }) (List.length_map _)

/-- The stored macros that are refused when the macro file is read. -/
def refusedMacros (files : Files) (config : TeamConfig) (verbs : VerbTable) : List MacroError :=
  match readMacroFile files config with
  | .ok (some file) => (MacroTable.ofSteps verbs config.macros.limits file.macros).2
  | _ => []

theorem refusedMacros_of_ok {config : TeamConfig} {file : Option MacroFile}
    (h : readMacroFile files config = .ok file) (verbs : VerbTable) :
    refusedMacros files config verbs =
      (MacroTable.ofSteps verbs config.macros.limits (file.getD {}).macros).2 := by
  rw [refusedMacros, h]
  cases file <;> rfl

theorem refusedMacros_of_error {config : TeamConfig} {error : TeamError}
    (h : readMacroFile files config = .error error) (verbs : VerbTable) :
    refusedMacros files config verbs = [] := by
  rw [refusedMacros, h]

theorem adds_takeReset (file : Option MacroFile) :
    Adds { dropped := (MacroTable.ofSteps t.verbs t.config.macros.limits (file.getD {}).macros).2.length
           cancellations := 1 } t (t.takeReset now file).1 := by
  refine adds_of_nextBatch rfl ?_
  exact congrArg (fun count => t.counters.plus { dropped := count, cancellations := 1 })
    (List.length_map _)

/-- What a reset adds, whether or not it goes well. -/
theorem adds_reset (files : Files) (now : Time) (t : Team) :
    Adds { dropped := (refusedMacros files t.config t.verbs).length
           cancellations := if (TeamAction.reset files now t).2.2.2.isOk then 1 else 0 } t
      (TeamAction.reset files now t).2.1 := by
  rw [TeamAction.reset_eq]
  cases hread : readMacroFile files t.config with
  | error error =>
      rw [refusedMacros_of_error hread]
      exact .refl t
  | ok file =>
      rw [refusedMacros_of_ok hread]
      exact adds_takeReset file

/-- What a reload adds, whether or not it goes well. -/
theorem adds_reloadMacros (files : Files) (now : Time) (t : Team) :
    Adds { dropped := (refusedMacros files t.config t.verbs).length } t
      (TeamAction.reloadMacros files now t).2.1 := by
  rw [TeamAction.reloadMacros_eq]
  cases hread : readMacroFile files t.config with
  | error error =>
      rw [refusedMacros_of_error hread]
      exact .refl t
  | ok file =>
      rw [refusedMacros_of_ok hread]
      cases file with
      | none => exact .refl t
      | some file => exact adds_withMacroFile file

theorem adds_restore (files : Files) (now : Time) (t : Team) (stored : StoredMacros) :
    Adds { dropped := (TeamAction.restore stored files now t).2.2.2.length } t
      (TeamAction.restore stored files now t).2.1 := by
  refine adds_of_nextBatch rfl ?_
  exact congrArg (fun count => t.counters.plus { dropped := count }) (List.length_map _)

theorem adds_of_macros (h : ∃ macros, t' = { t with macros }) : Adds {} t t' := by
  obtain ⟨macros, rfl⟩ := h
  exact adds_of_nextBatch rfl rfl

/-! #### Messages -/

/-- A message starts a batch if its answer says so. -/
theorem nextBatch_handleMessage (t : Team) (now : Time) (author text : String) (reference : Time) :
    (t.handleMessage now author text reference).1.scheduler.nextBatch = t.scheduler.nextBatch +
      [(t.handleMessage now author text reference).2.2].countP MessageOutcome.isScheduled := by
  refine t.handleMessage_cases now author text reference ?_ ?_ ?_ ?_
  · exact fun _ => rfl
  · exact fun _ _ => rfl
  · exact fun _ _ _ => rfl
  · intro _ _ _
    rw [scheduleMessage_eq]
    rfl

/-- What a message adds is told by its answer. -/
theorem counters_handleMessage (t : Team) (now : Time) (author text : String) (reference : Time) :
    (t.handleMessage now author text reference).1.counters = t.counters.plus
      ({ answers := [(t.handleMessage now author text reference).2.2] } : Account).counters := by
  refine t.handleMessage_cases now author text reference ?_ ?_ ?_ ?_
  · exact fun _ => rfl
  · exact fun _ _ => rfl
  · exact fun _ _ _ => rfl
  · intro _ _ _
    rw [scheduleMessage_eq]
    rfl

end Team

/-! ### What is seen of a team -/

namespace Station

variable (s : Station)

/-- The batches that a step starts, by their numbers. -/
def started (σ : LifeStep) : List Nat :=
  List.range' s.team.scheduler.nextBatch
    ((s.live σ).team.scheduler.nextBatch - s.team.scheduler.nextBatch)

/-- What is seen of a step. -/
def account (σ : LifeStep) : Account :=
  match σ with
  | .step (.message author text shift) => { answers := [s.answer author text shift] }
  | .step .cancelAll => { cancels := 1, random := s.started σ }
  | .step .reset => {
      refused := Team.refusedMacros s.host.files s.team.config s.team.verbs
      resets := if (Hub.perform s.host s.member .reset).2.2.isOk then 1 else 0
      random := s.started σ }
  | .step .reloadMacros => {
      refused := Team.refusedMacros s.host.files s.team.config s.team.verbs
      random := s.started σ }
  | .step (.restore stored) => {
      refused := (Hub.perform s.host s.member (.restore stored)).2.2
      random := s.started σ }
  | _ => { random := s.started σ }

/-- What is seen of a life. -/
def accounts : Station → List LifeStep → Account
  | _, [] => {}
  | s, σ :: rest => (s.account σ).append (accounts (s.live σ) rest)

/-! ### Each step -/

theorem adds_settle (now : Time) : Team.Adds {} s.team (s.settle now).team :=
  s.team.adds_settle now s.host.network s.host.device

variable {s}

/-- Whether what is seen of a step tells what it adds, and every batch is started by a message or by a
random verb. -/
structure Told (s : Station) (σ : LifeStep) : Prop where
  counters : (s.live σ).team.counters = s.team.counters.plus (s.account σ).counters
  nextBatch : (s.live σ).team.scheduler.nextBatch = s.team.scheduler.nextBatch +
    (s.account σ).counters.batches + (s.account σ).counters.randomInjections

theorem told_of_adds {σ : LifeStep} {more : TeamCounters} (h : Team.Adds more s.team (s.live σ).team)
    (hseen : (s.account σ).counters = { more with randomInjections := (s.started σ).length })
    (hbatches : more.batches = 0) : s.Told σ := by
  have hstarted : (s.started σ).length =
      (s.live σ).team.scheduler.nextBatch - s.team.scheduler.nextBatch := List.length_range'
  rw [hstarted] at hseen
  constructor
  · rw [hseen]
    exact h.counters
  · rw [hseen, hbatches]
    exact (Nat.add_sub_cancel' h.numbers).symm

/-- A step of which nothing is seen but the random verbs that it plays adds nothing else. -/
theorem told_of_random {σ : LifeStep} (h : Team.Adds {} s.team (s.live σ).team)
    (hseen : s.account σ = { random := s.started σ }) : s.Told σ := by
  refine told_of_adds h ?_ rfl
  rw [hseen]
  rfl

theorem told (s : Station) (σ : LifeStep) : s.Told σ := by
  have hsettle : ∀ now (s' : Station), Team.Adds {} s.team s'.team →
      Team.Adds {} s.team (s'.settle now).team := fun now s' h => h.trans (s'.adds_settle now)
  have hsame : Team.Adds {} s.team s.team := .refl s.team
  cases σ with
  | move host => exact told_of_random hsame rfl
  | beginStop => exact told_of_random (Team.adds_of_nextBatch rfl rfl) rfl
  | endStop => exact told_of_random (Team.adds_of_nextBatch rfl rfl) rfl
  | step σ =>
      cases σ with
      | message author text shift =>
          exact ⟨s.team.counters_handleMessage s.host.now author text (s.host.now + shift),
            s.team.nextBatch_handleMessage s.host.now author text (s.host.now + shift)⟩
      | cancelAll =>
          have hadds : Team.Adds { cancellations := 1 } s.team s.team.cancelAll.1 :=
            Team.adds_of_nextBatch rfl rfl
          exact told_of_adds hadds rfl rfl
      | cancelBatch batch => exact told_of_random (Team.adds_of_nextBatch rfl rfl) rfl
      | reset =>
          refine told_of_adds (Team.adds_reset s.host.files s.host.now s.team) ?_ rfl
          simp only [account, Account.counters, List.map_nil, List.sum_nil, Nat.zero_add]
          rfl
      | injectRandom => exact told_of_random (s.team.adds_injectRandom s.host.now) rfl
      | setRandom on => exact told_of_random (Team.adds_of_nextBatch rfl rfl) rfl
      | reseed seed => exact told_of_random (Team.adds_of_nextBatch rfl rfl) rfl
      | addMacro name body =>
          exact told_of_random (Team.adds_of_macros
            (TeamAction.exists_macros_addMacro name body s.host.files s.host.now s.team)) rfl
      | changeMacro name body =>
          exact told_of_random (Team.adds_of_macros
            (TeamAction.exists_macros_changeMacro name body s.host.files s.host.now s.team)) rfl
      | removeMacro name =>
          exact told_of_random (Team.adds_of_macros
            (TeamAction.exists_macros_removeMacro name s.host.files s.host.now s.team)) rfl
      | reloadMacros =>
          refine told_of_adds (Team.adds_reloadMacros s.host.files s.host.now s.team) ?_ rfl
          simp only [account, Account.counters, List.map_nil, List.sum_nil, Nat.zero_add]
          rfl
      | restore stored =>
          refine told_of_adds (Team.adds_restore s.host.files s.host.now s.team stored) ?_ rfl
          simp only [account, Account.counters, List.map_nil, List.sum_nil, Nat.zero_add]
          rfl
      | changeFiles files => exact told_of_random hsame rfl
      | fire => exact told_of_random (s.team.adds_fire s.host.now) rfl
      | tickRandom => exact told_of_random (s.team.adds_tickRandom s.host.now) rfl
      | work => exact told_of_random (Team.adds_of_nextBatch rfl rfl) rfl
      | retire => exact told_of_random (Team.adds_of_nextBatch rfl rfl) rfl
      | wait ms => exact told_of_random (Clock.wait_keeps hsettle _ _ _ hsame) rfl
      | advance ms => exact told_of_random (Clock.advance_keeps hsettle _ _ hsame) rfl

/-! ### Lives -/

/-- What a life adds is what is seen of it. -/
theorem counters_liveAll (s : Station) (life : List LifeStep) :
    (s.liveAll life).team.counters = s.team.counters.plus (s.accounts life).counters := by
  induction life generalizing s with
  | nil => rfl
  | cons σ rest ih =>
      rw [accounts, Account.counters_append, ← TeamCounters.plus_assoc, ← (s.told σ).counters]
      exact ih (s.live σ)

theorem nextBatch_liveAll (s : Station) (life : List LifeStep) :
    (s.liveAll life).team.scheduler.nextBatch = s.team.scheduler.nextBatch +
      (s.accounts life).counters.batches + (s.accounts life).counters.randomInjections := by
  induction life generalizing s with
  | nil => rfl
  | cons σ rest ih =>
      refine (ih (s.live σ)).trans ?_
      rw [accounts, Account.counters_append, (s.told σ).nextBatch, TeamCounters.plus]
      lia

variable {host : Host} {seed : Nat} {config : TeamConfig} {verbs : VerbTable}
  {telemetry : Option Telemetry}

theorem start_counters (hstart : start host seed config verbs telemetry = .ok s) :
    s.team.counters = { dropped := (Team.refusedMacros host.files config verbs).length } := by
  obtain ⟨team, notices, hteam, rfl⟩ := exists_of_start_eq_ok hstart
  obtain ⟨-, -, file, hread, rfl⟩ := Team.exists_of_start_eq_ok hteam
  rw [Team.refusedMacros_of_ok hread]
  simp [team, Team.withMacroFile, Team.drop, Team.unread]

theorem start_nextBatch (hstart : start host seed config verbs telemetry = .ok s) :
    s.team.scheduler.nextBatch = 1 := by
  obtain ⟨team, notices, hteam, rfl⟩ := exists_of_start_eq_ok hstart
  show team.playback.scheduler.nextBatch = 1
  rw [Team.start_playback hteam]

/-- **Counters tell what happened.** At every moment of the life of a team each of its messages was no
command, a duplicate, one with nothing to run, or one that started a batch. The other counters add up
the requests and the drops that the answers speak of, the macros refused as the team was started, reset,
reloaded or restored, the cancels and the resets that went well, and the random verbs, which started all
other batches. Nothing, a reset among it, makes a counter smaller. -/
theorem counters_tell (hstart : start host seed config verbs telemetry = .ok s)
    (life : List LifeStep) :
    let seen := s.accounts life
    let t := (s.liveAll life).team
    t.counters.messages = seen.answers.length ∧
      t.counters.duplicates = seen.answers.count .duplicate ∧
      t.counters.batches = seen.answers.countP MessageOutcome.isScheduled ∧
      t.counters.messages = seen.answers.count .notACommand + t.counters.duplicates +
        seen.answers.countP MessageOutcome.isNothingToRun + t.counters.batches ∧
      t.counters.requests = (seen.answers.map MessageOutcome.requests).sum ∧
      t.counters.dropped = (seen.answers.map MessageOutcome.dropped).sum +
        ((Team.refusedMacros host.files config verbs).length + seen.refused.length) ∧
      t.counters.cancellations = seen.cancels + seen.resets ∧
      t.counters.randomInjections = seen.random.length ∧
      t.scheduler.nextBatch = 1 + t.counters.batches + t.counters.randomInjections ∧
      ∀ σ, t.counters.Grows ((s.liveAll life).live σ).team.counters := by
  intro seen t
  have hcounters : t.counters = ({ dropped := (Team.refusedMacros host.files config verbs).length } :
      TeamCounters).plus seen.counters := by
    rw [← start_counters hstart]
    exact s.counters_liveAll life
  have hnext : t.scheduler.nextBatch =
      1 + seen.counters.batches + seen.counters.randomInjections := by
    rw [← start_nextBatch hstart]
    exact s.nextBatch_liveAll life
  have hgrows : ∀ σ, t.counters.Grows ((s.liveAll life).live σ).team.counters := by
    intro σ
    rw [((s.liveAll life).told σ).counters]
    exact TeamCounters.grows_plus ..
  have hanswers := MessageOutcome.length_eq_count seen.answers
  rw [hcounters] at hgrows ⊢
  simp only [TeamCounters.plus, Account.counters, Nat.zero_add] at hnext hgrows ⊢
  exact ⟨trivial, trivial, trivial, hanswers, trivial, Nat.add_left_comm .., trivial, trivial, hnext,
    hgrows⟩

/-- A life in which there is something to count for every counter. -/
def eventful : List LifeStep :=
  [.step (.message "ann" "hello" 0), .step (.message "ann" "+jump +right 1+x" 0),
    .step (.message "ann" "+jump +right 1+x" 0), .step (.message "bob" "+right 1+2+3" 0),
    .step (.restore [("jump", [])]), .step .fire, .step .cancelAll, .step .reset, .step .injectRandom,
    .beginStop, .step .work, .endStop]

theorem counters_tell_eventful :
    let counters := ((keeping "m.json" {}).liveAll eventful).team.counters
    counters.messages = 1 + counters.duplicates + 1 + counters.batches ∧ counters.requests = 1 ∧
      counters.dropped = (1 + 1) + (0 + 1) ∧ counters.cancellations = 1 + 1 ∧
      counters.randomInjections = 1 := by
  have hstart : start (keeping "m.json" {}).host 0 (keeping "m.json" {}).team.config
      MacroTable.jumpAndRight none = .ok (keeping "m.json" {}) := rfl
  obtain ⟨-, -, -, hmessages, hrequests, hdropped, hcancellations, hrandom, -⟩ :=
    counters_tell hstart eventful
  have hanswers : ((keeping "m.json" {}).accounts eventful).answers =
      [.notACommand, .scheduled 1 1 1, .duplicate, .nothingToRun 1] := by decide +kernel
  have hrefused : ((keeping "m.json" {}).accounts eventful).refused.length = 1 := by decide +kernel
  rw [hanswers] at hmessages hrequests hdropped
  rw [hrefused] at hdropped
  refine ⟨hmessages, hrequests, hdropped, hcancellations.trans ?_, hrandom.trans ?_⟩
  · decide +kernel
  · decide +kernel

end Station

end CrowdPad
