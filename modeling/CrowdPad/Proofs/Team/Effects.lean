import CrowdPad.Hub.Basic
import CrowdPad.Proofs.Data.Result
import CrowdPad.Proofs.Scheduler.Tick

/-! What can be done to a team, taken apart once. Whatever has several outcomes comes with one statement
that goes through them, with what the team is like behind each; what is to hold behind whatever is done is
proved outcome by outcome. To what is under way it does no more than to schedule a batch, or to cancel
some. -/

namespace CrowdPad

/-! ### Starting -/

namespace Team

variable {t : Team}

section Start

variable {files : Files} {now : Time} {seed : Nat} {config : TeamConfig} {verbs : VerbTable}
  {notices : List Notice}

/-- A team that has yet to read its macros. -/
def unread (now : Time) (seed : Nat) (config : TeamConfig) (verbs : VerbTable) : Team where
  config
  verbs
  seed
  playback := { worker := .ofTarget config.target config.remote }
  dropped := .ofCapacity config.diagnosticsCapacity
  failures := .ofCapacity config.diagnosticsCapacity
  randomOn := config.randomMs.isSome
  randomAt := (config.randomMs.filter fun ms => 0 < ms).map fun ms => now + ms

/-- A team that starts has read its macros, and says so in its log and nowhere else. -/
theorem exists_of_start_eq_ok (hstart : start files now seed config verbs = .ok (t, notices)) :
    config.grammar.fault? = none ∧ (∃ message metadata, notices = [.log .info message metadata]) ∧
      ∃ file, readMacroFile files config = .ok file ∧
        t = (unread now seed config verbs).withMacroFile now (file.getD {}) := by
  obtain ⟨_, -, hstart⟩ := exists_of_bind_eq_ok hstart
  obtain ⟨_, hgrammar, hstart⟩ := exists_of_bind_eq_ok hstart
  obtain ⟨file, hread, hstart⟩ := exists_of_bind_eq_ok hstart
  cases hstart
  refine ⟨?_, ⟨_, _, rfl⟩, file, hread, rfl⟩
  unfold Grammar.check at hgrammar
  split at hgrammar
  · cases hgrammar
  · assumption

/-- A team that starts has handed over nothing. -/
theorem start_playback (hstart : start files now seed config verbs = .ok (t, notices)) :
    t.playback = { worker := .ofTarget config.target config.remote } := by
  obtain ⟨-, -, file, -, rfl⟩ := exists_of_start_eq_ok hstart
  rfl

end Start

/-! ### Messages -/

section Messages

variable (t : Team) (now : Time) (author text : String) (reference : Time)

/-- A team that has counted one more message. -/
def counted : Team :=
  { t with counters := { t.counters with messages := t.counters.messages + 1 } }

/-- Whether a message is ignored as a repeat. -/
def ignores : Bool := t.config.spamProtection && t.stillRuns (messageKey author text)

/-- Scheduling touches what is under way, recent messages and counters, and nothing else of a team. -/
theorem scheduleMessage_eq (key : MessageKey) (orders : Orders) :
    (t.scheduleMessage author key reference orders).1 =
      { t.withScheduler (t.scheduler.schedule orders.requests reference).1 with
        recent :=
          if t.config.spamProtection then
            ((t.withScheduler (t.scheduler.schedule orders.requests reference).1).remember key
              t.scheduler.nextBatch).recent
          else t.recent
        counters := { t.counters with
          batches := t.counters.batches + 1
          requests := t.counters.requests + orders.requests.length } } := by
  have hconfig : (t.withScheduler (t.scheduler.schedule orders.requests reference).1).config = t.config :=
    rfl
  unfold scheduleMessage
  simp only [hconfig]
  split <;> rfl

theorem handleMessage_of_not_command (h : ¬t.config.grammar.isCommand text) :
    t.handleMessage now author text reference = (t.counted, [], .notACommand) := by
  rw [Bool.not_eq_true] at h
  exact if_pos (congrArg (!·) h)

variable {text}

theorem handleMessage_of_ignores (hcommand : t.config.grammar.isCommand text)
    (h : t.ignores author text) : t.handleMessage now author text reference =
      ({ t.counted with counters := { t.counted.counters with
          duplicates := t.counted.counters.duplicates + 1 } }, [], .duplicate) := by
  have hmarked : ¬(!t.config.grammar.isCommand text) = true := by rw [hcommand]; exact nofun
  exact (if_neg hmarked).trans (if_pos h)

theorem handleMessage_of_not_ignores (hcommand : t.config.grammar.isCommand text)
    (h : ¬t.ignores author text) : t.handleMessage now author text reference =
      if (t.ordersOf text).requests.isEmpty then
        (t.counted.drop now author (t.ordersOf text).reasons, [],
          .nothingToRun (t.ordersOf text).reasons.length)
      else (t.counted.drop now author (t.ordersOf text).reasons).scheduleMessage author
        (messageKey author text) reference (t.ordersOf text) := by
  have hmarked : ¬(!t.config.grammar.isCommand text) = true := by rw [hcommand]; exact nofun
  exact (if_neg hmarked).trans (if_neg h)

variable (text)

/-- What can become of a message: it is no command, it is ignored, there is nothing to run in it, or its
requests are scheduled. -/
@[elab_as_elim]
theorem handleMessage_cases {motive : Team × List Notice × MessageOutcome → Prop}
    (notACommand : ¬t.config.grammar.isCommand text → motive (t.counted, [], .notACommand))
    (duplicate : t.config.grammar.isCommand text → t.ignores author text →
      motive ({ t.counted with counters := { t.counted.counters with
        duplicates := t.counted.counters.duplicates + 1 } }, [], .duplicate))
    (nothingToRun : t.config.grammar.isCommand text → ¬t.ignores author text →
      (t.ordersOf text).requests.isEmpty →
      motive (t.counted.drop now author (t.ordersOf text).reasons, [],
        .nothingToRun (t.ordersOf text).reasons.length))
    (scheduled : t.config.grammar.isCommand text → ¬t.ignores author text →
      ¬(t.ordersOf text).requests.isEmpty →
      motive ((t.counted.drop now author (t.ordersOf text).reasons).scheduleMessage author
        (messageKey author text) reference (t.ordersOf text))) :
    motive (t.handleMessage now author text reference) := by
  by_cases hcommand : t.config.grammar.isCommand text
  · by_cases hignores : t.ignores author text
    · rw [handleMessage_of_ignores t now author reference hcommand hignores]
      exact duplicate hcommand hignores
    · rw [handleMessage_of_not_ignores t now author reference hcommand hignores]
      split
      · exact nothingToRun hcommand hignores ‹_›
      · exact scheduled hcommand hignores ‹_›
  · rw [handleMessage_of_not_command t now author text reference hcommand]
    exact notACommand hcommand

end Messages

/-! ### Random verbs -/

section Random

/-- Whether the time for a random verb has come. -/
structure RandomComes (t : Team) (now time : Time) (interval : Nat) : Prop where
  at_time : t.randomAt = some time
  every : t.config.randomMs = some interval
  due : time ≤ now

variable {now : Time}

theorem nextTurn?_of_comes {time : Time} {interval : Nat} (h : t.RandomComes now time interval) :
    t.nextTurn? now = some (nextRandomAt now time interval) := by
  rw [nextTurn?, h.at_time, h.every]
  exact if_neg (Int.not_lt.mpr h.due)

theorem nextTurn?_of_not_comes (h : ∀ time interval, ¬t.RandomComes now time interval) :
    t.nextTurn? now = none := by
  unfold nextTurn?
  split
  · rename_i time interval hat hevery
    exact if_pos (Int.not_le.mp fun hdue => h time interval ⟨hat, hevery, hdue⟩)
  · rfl

theorem tickRandom_of_comes {time : Time} {interval : Nat} (h : t.RandomComes now time interval) :
    t.tickRandom now =
      if t.randomOn && t.scheduler.activeBatches = 0 then
        ((injectRandom now { t with randomAt := some (nextRandomAt now time interval) }).1,
          (injectRandom now { t with randomAt := some (nextRandomAt now time interval) }).2.1)
      else ({ t with randomAt := some (nextRandomAt now time interval) }, []) := by
  rw [tickRandom, nextTurn?_of_comes h]
  rfl

theorem tickRandom_of_not_comes (h : ∀ time interval, ¬t.RandomComes now time interval) :
    t.tickRandom now = (t, []) := by
  rw [tickRandom, nextTurn?_of_not_comes h]

variable (t now)

/-- A random verb is scheduled with the timing it has by default, or there is none to be scheduled. -/
@[elab_as_elim]
theorem injectRandom_cases {motive : Team × List Notice × Option Nat → Prop}
    (nothing : motive (t, [], none))
    (played : ∀ verb request, t.randomVerb? = some verb → ({} : Timing).request verb = .ok request →
      ∀ payload, motive ({ t.withScheduler (t.scheduler.schedule [request] now).1 with
          seed := nextSeed t.seed
          counters := { t.counters with
            randomInjections := t.counters.randomInjections + 1 } },
        [.event "random.injected" payload], some t.scheduler.nextBatch)) :
    motive (t.injectRandom now) := by
  unfold injectRandom
  split
  · exact nothing
  · rename_i verb hverb
    split
    · exact nothing
    · rename_i request hrequest
      exact played verb request hverb hrequest _

/-- When the time for a random verb has come, the next one is set; a verb is played if that is turned on and
no batch is active. -/
@[elab_as_elim]
theorem tickRandom_cases {motive : Team × List Notice → Prop}
    (waits : (∀ time interval, ¬t.RandomComes now time interval) → motive (t, []))
    (passes : ∀ time interval, t.RandomComes now time interval →
      motive ({ t with randomAt := some (nextRandomAt now time interval) }, []))
    (plays : ∀ time interval, t.RandomComes now time interval → t.randomOn →
      t.scheduler.activeBatches = 0 →
      motive ((injectRandom now { t with randomAt := some (nextRandomAt now time interval) }).1,
        (injectRandom now { t with randomAt := some (nextRandomAt now time interval) }).2.1)) :
    motive (t.tickRandom now) := by
  by_cases hcome : ∃ time interval, t.RandomComes now time interval
  · obtain ⟨time, interval, hcome⟩ := hcome
    rw [tickRandom_of_comes hcome]
    split
    · rename_i hplay
      obtain ⟨hon, hidle⟩ := Bool.and_eq_true_iff.mp hplay
      exact plays time interval hcome hon (of_decide_eq_true hidle)
    · exact passes time interval hcome
  · have hnever : ∀ time interval, ¬t.RandomComes now time interval :=
      fun time interval h => hcome ⟨time, interval, h⟩
    rw [tickRandom_of_not_comes hnever]
    exact waits hnever

end Random

/-! ### Macros -/

section Macros

variable {files files' : Files} {kind name : String} {changed : Except MacroError MacroTable}

/-- A change that succeeds is made, and kept where macros are kept. -/
theorem updateMacros_eq_ok {t' : Team} {notices : List Notice}
    (h : t.updateMacros files kind name changed = (files', .ok (t', notices))) :
    ∃ macros, changed = .ok macros ∧ persist files t.config macros = (files', .ok ()) ∧
      t' = { t with macros } := by
  unfold updateMacros at h
  split at h
  · cases h
  · split at h
    · cases h
    · rename_i macros
      simp only at h
      split at h
      · cases h
      · rename_i hsaved
        cases h
        exact ⟨macros, rfl, hsaved, rfl⟩

/-- A change that fails leaves the files alone, or it was made and could not be kept. -/
theorem updateMacros_eq_error {error : TeamError}
    (h : t.updateMacros files kind name changed = (files', .error error)) :
    files' = files ∨
      ∃ macros, changed = .ok macros ∧ persist files t.config macros = (files', .error error) := by
  unfold updateMacros at h
  split at h
  · cases h
    exact .inl rfl
  · split at h
    · cases h
      exact .inl rfl
    · rename_i macros
      simp only at h
      split at h
      · rename_i hrefused
        cases h
        exact .inr ⟨macros, rfl, hrefused⟩
      · cases h

variable (files) (now : Time) (t)

/-- All that a reset does with the files is to read the macro file. -/
theorem reset_eq_map : t.reset files now =
    (readMacroFile files t.config).map fun file => t.takeReset now file := by
  unfold reset
  cases readMacroFile files t.config <;> rfl

theorem reloadMacros_eq_map : t.reloadMacros files now =
    (readMacroFile files t.config).map fun file => t.takeMacroFile now file := by
  unfold reloadMacros
  cases readMacroFile files t.config <;> rfl

end Macros

end Team

namespace TeamAction

variable (name body : String) (files : Files) (now : Time) (t : Team)

theorem reset_eq : reset files now t =
    match Team.readMacroFile files t.config with
    | .ok file => (files, (t.takeReset now file).1, (t.takeReset now file).2, .ok ())
    | .error error => (files, t, [], .error error) := by
  rw [reset, ofExcept, Team.reset_eq_map]
  cases Team.readMacroFile files t.config <;> rfl

theorem reloadMacros_eq : reloadMacros files now t =
    match Team.readMacroFile files t.config with
    | .ok file => (files, (t.takeMacroFile now file).1, (t.takeMacroFile now file).2.1,
        .ok (t.takeMacroFile now file).2.2)
    | .error error => (files, t, [], .error error) := by
  rw [reloadMacros, ofExcept, Team.reloadMacros_eq_map]
  cases Team.readMacroFile files t.config <;> rfl

/-- Changing macros changes nothing else of a team. -/
theorem exists_macros_updateMacros (kind : String) (made : Team → Except MacroError MacroTable) :
    ∃ macros, (ofExcept (fun files _ t =>
      let (files, result) := t.updateMacros files kind name (made t)
      (files, result.map fun (t, notices) => (t, notices, ()))) files now t).2.1 = { t with macros } := by
  rw [ofExcept]
  rcases hdone : t.updateMacros files kind name (made t) with ⟨files', error | ⟨t', notices⟩⟩
  · exact ⟨t.macros, rfl⟩
  · obtain ⟨macros, -, -, rfl⟩ := Team.updateMacros_eq_ok hdone
    exact ⟨macros, rfl⟩

theorem exists_macros_addMacro : ∃ macros, (addMacro name body files now t).2.1 = { t with macros } :=
  exists_macros_updateMacros name files now t _ fun t => t.compileMacro name body >>= t.macros.add

theorem exists_macros_changeMacro :
    ∃ macros, (changeMacro name body files now t).2.1 = { t with macros } :=
  exists_macros_updateMacros name files now t _
    fun t => t.compileMacro name body >>= fun m => (t.macros.change m).map Prod.fst

theorem exists_macros_removeMacro : ∃ macros, (removeMacro name files now t).2.1 = { t with macros } :=
  exists_macros_updateMacros name files now t _ fun t => (t.macros.remove name).map Prod.fst

/-- What does not depend on macros is the same where nothing else has changed. -/
theorem eq_of_macros {β : Type} (f : Team → β) (hf : ∀ (t : Team) macros, f { t with macros } = f t)
    {t t' : Team} (h : ∃ macros, t' = { t with macros }) : f t' = f t := by
  obtain ⟨macros, rfl⟩ := h
  exact hf t macros

end TeamAction

/-! ### What is under way -/

/-- What an action does to what is under way: nothing, or it schedules a batch, or cancels some. -/
inductive Playback.Shifts (p : Playback) : Playback → Prop where
  | same : p.Shifts p
  | scheduled (requests : List Request) (reference : Time) :
      p.Shifts { p with scheduler := (p.scheduler.schedule requests reference).1 }
  | cancelled (which : Nat → Bool) : p.Shifts { p with scheduler := p.scheduler.cancelIf which }

namespace Team

variable (t : Team) (now : Time)

theorem shifts_cancelAll : t.playback.Shifts t.cancelAll.1.playback := by
  have hcancelled := Playback.Shifts.cancelled (p := t.playback) fun _ => true
  rw [← Scheduler.cancelAll_eq_cancelIf] at hcancelled
  exact hcancelled

theorem shifts_cancelBatch (batch : Nat) :
    t.playback.Shifts (t.withScheduler (t.scheduler.cancel batch)).playback := by
  have hcancelled := Playback.Shifts.cancelled (p := t.playback) (· == batch)
  rw [← Scheduler.cancel_eq_cancelIf] at hcancelled
  exact hcancelled

theorem shifts_injectRandom : t.playback.Shifts (t.injectRandom now).1.playback :=
  t.injectRandom_cases now .same fun _ request _ _ _ => .scheduled [request] now

theorem shifts_tickRandom : t.playback.Shifts (t.tickRandom now).1.playback := by
  refine t.tickRandom_cases now ?_ ?_ ?_
  · exact fun _ => .same
  · exact fun _ _ _ => .same
  · intro time interval _ _ _
    exact shifts_injectRandom { t with randomAt := some (nextRandomAt now time interval) } now

theorem shifts_handleMessage (author text : String) (reference : Time) :
    t.playback.Shifts (t.handleMessage now author text reference).1.playback := by
  refine t.handleMessage_cases now author text reference ?_ ?_ ?_ ?_
  · exact fun _ => .same
  · exact fun _ _ => .same
  · exact fun _ _ _ => .same
  · intro _ _ _
    rw [scheduleMessage_eq]
    exact .scheduled (t.ordersOf text).requests reference

end Team

namespace TeamAction

variable (files : Files) (now : Time) (t : Team)

theorem shifts_reset : t.playback.Shifts (reset files now t).2.1.playback := by
  rw [reset_eq]
  cases Team.readMacroFile files t.config with
  | error error => exact .same
  | ok file => exact t.shifts_cancelAll

theorem shifts_reloadMacros : t.playback.Shifts (reloadMacros files now t).2.1.playback := by
  rw [reloadMacros_eq]
  rcases Team.readMacroFile files t.config with _ | _ | _ <;> exact .same

variable {t} in
theorem shifts_of_macros {t' : Team} (h : ∃ macros, t' = { t with macros }) :
    t.playback.Shifts t'.playback := by
  obtain ⟨macros, rfl⟩ := h
  exact .same

end TeamAction

end CrowdPad
