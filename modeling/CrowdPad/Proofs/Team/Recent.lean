import CrowdPad.Proofs.Team.Edit

/-! Recent messages. Messages and resets apart, nothing that is done to a team touches the messages that
it remembers, or looks at them, and what becomes of a message depends on them only through whether the
same one still runs. -/

namespace CrowdPad

/-! ### Batches grow old -/

namespace Scheduler

/-- Whether a scheduler came out of another one by time or by what is done to it: numbers are given
out once, and a batch that is over stays over. -/
structure Ages (s s' : Scheduler) : Prop where
  numbers : s.nextBatch ≤ s'.nextBatch
  past : ∀ id < s.nextBatch, s'.isActive id → s.isActive id

theorem Ages.refl (s : Scheduler) : Ages s s := ⟨Nat.le_refl _, fun _ _ h => h⟩

theorem Ages.trans {s s' s'' : Scheduler} (h : Ages s s') (h' : Ages s' s'') : Ages s s'' := by
  refine ⟨h.numbers.trans h'.numbers, fun id hid hactive => ?_⟩
  exact h.past id hid (h'.past id (hid.trans_le h.numbers) hactive)

variable (s : Scheduler)

theorem ages_of_subset {s s' : Scheduler} (hnext : s'.nextBatch = s.nextBatch)
    (hids : ∀ b ∈ s'.batches, ∃ before ∈ s.batches, before.id = b.id) : Ages s s' := by
  refine ⟨hnext.ge, fun id _ hactive => ?_⟩
  obtain ⟨b, hb, rfl⟩ := isActive_iff.mp hactive
  exact isActive_iff.mpr (hids b hb)

theorem ages_schedule (requests : List Request) (reference : Time) :
    Ages s (s.schedule requests reference).1 := by
  refine ⟨Nat.le_succ _, fun id hid hactive => ?_⟩
  obtain ⟨b, hb, rfl⟩ := isActive_iff.mp hactive
  rcases List.mem_append.mp hb with hold | hnew
  · exact isActive_iff.mpr ⟨b, hold, rfl⟩
  · rw [List.mem_singleton.mp hnew] at hid
    exact absurd hid (Nat.lt_irrefl _)

theorem ages_cancelIf (which : Nat → Bool) : Ages s (s.cancelIf which) := by
  refine ages_of_subset rfl fun b hb => ?_
  obtain ⟨before, hbefore, rfl⟩ := List.mem_map.mp hb
  refine ⟨before, hbefore, ?_⟩
  split <;> rfl

theorem ages_tick (now : Time) (accepting : Bool) : Ages s (s.tick now accepting).1 := by
  refine ⟨Nat.le_refl _, fun id _ hactive => ?_⟩
  rwa [isActive_tick] at hactive

theorem ages_retire : Ages s s.retire.1 :=
  ages_of_subset rfl fun b hb => ⟨b, (List.mem_filter.mp hb).1, rfl⟩

end Scheduler

/-- What is done to what is under way lets batches grow old. -/
theorem Playback.Shifts.ages {p p' : Playback} (h : p.Shifts p') : p.scheduler.Ages p'.scheduler := by
  cases h with
  | same => exact .refl _
  | scheduled requests reference => exact p.scheduler.ages_schedule requests reference
  | cancelled which => exact p.scheduler.ages_cancelIf which

/-! ### What does not touch recent messages -/

namespace Team

/-- Whether a team has the recent messages of another one, and batches that came out of its. -/
structure Ages (t t' : Team) : Prop where
  recent : t'.recent = t.recent
  scheduler : Scheduler.Ages t.scheduler t'.scheduler

theorem Ages.refl (t : Team) : Ages t t := ⟨rfl, .refl _⟩

theorem Ages.trans {t t' t'' : Team} (h : Ages t t') (h' : Ages t' t'') : Ages t t'' :=
  ⟨h'.recent.trans h.recent, h.scheduler.trans h'.scheduler⟩

variable (t : Team) (now : Time)

theorem ages_injectRandom : Ages t (t.injectRandom now).1 :=
  ⟨t.injectRandom_cases now rfl fun _ _ _ _ _ => rfl, (t.shifts_injectRandom now).ages⟩

theorem ages_fire : Ages t (t.fire now).1 :=
  ⟨rfl, t.scheduler.ages_tick now t.playback.worker.isAccepting⟩

theorem ages_tickRandom : Ages t (t.tickRandom now).1 := by
  refine ⟨?_, (t.shifts_tickRandom now).ages⟩
  refine t.tickRandom_cases now ?_ ?_ ?_
  · exact fun _ => rfl
  · exact fun _ _ _ => rfl
  · intro time interval _ _ _
    exact (ages_injectRandom { t with randomAt := some (nextRandomAt now time interval) } now).recent

theorem ages_work (network : Attempt) (device : Device) : Ages t (t.work now network device).1 :=
  ⟨rfl, .refl _⟩

theorem ages_retire : Ages t { t with playback := t.playback.retire.1 } :=
  ⟨rfl, t.scheduler.ages_retire⟩

theorem ages_settle (network : Attempt) (device : Device) :
    Ages t (t.settle now network device).1 := by
  have hfired := t.ages_fire now
  have hrandom := hfired.trans (ages_tickRandom _ now)
  have hagain := hrandom.trans (ages_fire _ now)
  exact (hagain.trans (ages_work _ now network device)).trans (ages_retire _)

variable {t} in
theorem ages_of_macros {t' : Team} (h : ∃ macros, t' = { t with macros }) : Ages t t' := by
  obtain ⟨macros, rfl⟩ := h
  exact ⟨rfl, .refl _⟩

theorem ages_reloadMacros (files : Files) : Ages t (TeamAction.reloadMacros files now t).2.1 := by
  rw [TeamAction.reloadMacros_eq]
  rcases readMacroFile files t.config with _ | _ | _ <;> exact ⟨rfl, .refl _⟩

/-! ### What does not look at recent messages -/

def withRecent (recent : List (MessageKey × Nat)) (t : Team) : Team := { t with recent }

@[simp] theorem withRecent_scheduler (recent : List (MessageKey × Nat)) (t : Team) :
    (t.withRecent recent).scheduler = t.scheduler := rfl

@[simp] theorem withRecent_withRecent (recent other : List (MessageKey × Nat)) (t : Team) :
    (t.withRecent other).withRecent recent = t.withRecent recent := rfl

variable (t : Team) (recent : List (MessageKey × Nat)) (now : Time)

theorem injectRandom_withRecent : (t.withRecent recent).injectRandom now =
    ((t.injectRandom now).1.withRecent recent, (t.injectRandom now).2) := by
  have hverb : (t.withRecent recent).randomVerb? = t.randomVerb? := rfl
  rw [injectRandom, injectRandom, hverb]
  split
  · rfl
  · split <;> rfl

theorem tickRandom_withRecent : (t.withRecent recent).tickRandom now =
    ((t.tickRandom now).1.withRecent recent, (t.tickRandom now).2) := by
  by_cases hcome : ∃ time interval, t.RandomComes now time interval
  · obtain ⟨time, interval, hcome⟩ := hcome
    have hother : (t.withRecent recent).RandomComes now time interval :=
      ⟨hcome.at_time, hcome.every, hcome.due⟩
    have hinject := injectRandom_withRecent
      { t with randomAt := some (nextRandomAt now time interval) } recent now
    rw [tickRandom_of_comes hcome, tickRandom_of_comes hother]
    by_cases hplay : t.randomOn && t.scheduler.activeBatches = 0
    · have hplay' : (t.withRecent recent).randomOn &&
          (t.withRecent recent).scheduler.activeBatches = 0 := hplay
      rw [if_pos hplay, if_pos hplay']
      exact congrArg (fun played => (played.1, played.2.1)) hinject
    · have hplay' : ¬((t.withRecent recent).randomOn &&
          (t.withRecent recent).scheduler.activeBatches = 0) := hplay
      rw [if_neg hplay, if_neg hplay']
      rfl
  · have hother : ∀ time interval, ¬(t.withRecent recent).RandomComes now time interval :=
      fun time interval h => hcome ⟨time, interval, h.at_time, h.every, h.due⟩
    rw [tickRandom_of_not_comes hother,
      tickRandom_of_not_comes fun time interval h => hcome ⟨time, interval, h⟩]

theorem settle_withRecent (network : Attempt) (device : Device) :
    (t.withRecent recent).settle now network device =
      ((t.settle now network device).1.withRecent recent, (t.settle now network device).2) := by
  have hfire : (t.withRecent recent).fire now =
      ((t.fire now).1.withRecent recent, (t.fire now).2) := rfl
  unfold settle
  rw [hfire]
  simp only [tickRandom_withRecent]
  rfl

end Team

theorem Team.updateMacros_withRecent (t : Team) (recent : List (MessageKey × Nat)) (files : Files)
    (kind name : String) (changed : Except MacroError MacroTable) :
    (t.withRecent recent).updateMacros files kind name changed =
      ((t.updateMacros files kind name changed).1,
        (t.updateMacros files kind name changed).2.map
          fun (t, notices) => (t.withRecent recent, notices)) := by
  have hconfig : (t.withRecent recent).config = t.config := rfl
  unfold updateMacros
  rw [hconfig]
  split
  · rfl
  · split
    · rfl
    · rename_i macros
      simp only
      rcases persist files t.config macros with ⟨files', _ | _⟩ <;> rfl

namespace TeamAction

/-- Whether an action neither looks at recent messages nor changes them. -/
def Blind {α : Type} (action : TeamAction α) : Prop :=
  ∀ (files : Files) (now : Time) (t : Team) (recent : List (MessageKey × Nat)),
    action files now (t.withRecent recent) = ((action files now t).1,
      (action files now t).2.1.withRecent recent, (action files now t).2.2)

theorem blind_ofExcept {α : Type}
    {action : Files → Time → Team → Files × Except TeamError (Team × List Notice × α)}
    (h : ∀ files now t recent, action files now (t.withRecent recent) =
      ((action files now t).1,
        (action files now t).2.map fun (t, done) => (t.withRecent recent, done))) :
    (ofExcept action).Blind := by
  intro files now t recent
  unfold ofExcept
  rw [h]
  rcases action files now t with ⟨files', _ | _⟩ <;> rfl

theorem blind_updateMacros (kind name : String) (made : Team → Except MacroError MacroTable)
    (hmade : ∀ t recent, made (t.withRecent recent) = made t) :
    (ofExcept fun files _ t =>
      let (files, result) := t.updateMacros files kind name (made t)
      (files, result.map fun (t, notices) => (t, notices, ()))).Blind := by
  apply blind_ofExcept
  intro files now t recent
  simp only [hmade, Team.updateMacros_withRecent]
  rcases t.updateMacros files kind name (made t) with ⟨files', _ | _⟩ <;> rfl

theorem blind_addMacro (name body : String) : (addMacro name body).Blind :=
  blind_updateMacros _ name (fun t => t.compileMacro name body >>= t.macros.add) fun _ _ => rfl

theorem blind_changeMacro (name body : String) : (changeMacro name body).Blind :=
  blind_updateMacros _ name
    (fun t => t.compileMacro name body >>= fun m => (t.macros.change m).map Prod.fst) fun _ _ => rfl

theorem blind_removeMacro (name : String) : (removeMacro name).Blind :=
  blind_updateMacros _ name (fun t => (t.macros.remove name).map Prod.fst) fun _ _ => rfl

theorem blind_reloadMacros : reloadMacros.Blind := by
  apply blind_ofExcept
  intro files now t recent
  have hconfig : (t.withRecent recent).config = t.config := rfl
  unfold Team.reloadMacros
  rw [hconfig]
  rcases Team.readMacroFile files t.config with _ | _ | _ <;> rfl

end TeamAction

/-! ### Answers to messages -/

namespace Team

variable (t : Team) (now : Time) (author text : String) (reference : Time)

theorem scheduleMessage_scheduler (key : MessageKey) (orders : Orders) :
    (t.scheduleMessage author key reference orders).1.scheduler =
      (t.scheduler.schedule orders.requests reference).1 := by
  rw [scheduleMessage_eq]
  rfl

theorem scheduleMessage_recent (key : MessageKey) (orders : Orders)
    (hspam : t.config.spamProtection) :
    (t.scheduleMessage author key reference orders).1.recent =
      ((t.withScheduler (t.scheduler.schedule orders.requests reference).1).remember key
        t.scheduler.nextBatch).recent := by
  rw [scheduleMessage_eq]
  exact if_pos hspam

theorem scheduleMessage_withRecent (recent other : List (MessageKey × Nat)) (key : MessageKey)
    (orders : Orders) :
    ((t.withRecent recent).scheduleMessage author key reference orders).2 =
        (t.scheduleMessage author key reference orders).2 ∧
      ((t.withRecent recent).scheduleMessage author key reference orders).1.withRecent other =
        (t.scheduleMessage author key reference orders).1.withRecent other := by
  refine ⟨rfl, ?_⟩
  rw [scheduleMessage_eq, scheduleMessage_eq]
  rfl

variable {text}

/-- Of recent messages a team uses only whether the message at hand still runs. -/
theorem handleMessage_withRecent (recent : List (MessageKey × Nat))
    (hruns : (t.withRecent recent).ignores author text = t.ignores author text) :
    ((t.withRecent recent).handleMessage now author text reference).2 =
        (t.handleMessage now author text reference).2 ∧
      ∀ other, ((t.withRecent recent).handleMessage now author text reference).1.withRecent other =
        (t.handleMessage now author text reference).1.withRecent other := by
  by_cases hcommand : t.config.grammar.isCommand text
  · have hcommand' : (t.withRecent recent).config.grammar.isCommand text := hcommand
    by_cases hignores : t.ignores author text
    · rw [handleMessage_of_ignores t now author reference hcommand hignores,
        handleMessage_of_ignores _ now author reference hcommand' (hruns ▸ hignores)]
      exact ⟨rfl, fun _ => rfl⟩
    · rw [handleMessage_of_not_ignores t now author reference hcommand hignores,
        handleMessage_of_not_ignores _ now author reference hcommand' (hruns ▸ hignores)]
      have horders : (t.withRecent recent).ordersOf text = t.ordersOf text := rfl
      rw [horders]
      split
      · exact ⟨rfl, fun _ => rfl⟩
      · have hschedule := fun other => scheduleMessage_withRecent
          (t.counted.drop now author (t.ordersOf text).reasons) author reference recent other
          (messageKey author text) (t.ordersOf text)
        exact ⟨(hschedule []).1, fun other => (hschedule other).2⟩
  · have hcommand' : ¬(t.withRecent recent).config.grammar.isCommand text := hcommand
    rw [handleMessage_of_not_command t now author text reference hcommand,
      handleMessage_of_not_command _ now author text reference hcommand']
    exact ⟨rfl, fun _ => rfl⟩

theorem handleMessage_eq_duplicate_iff (text : String) :
    (t.handleMessage now author text reference).2.2 = .duplicate ↔
      t.config.grammar.isCommand text ∧ t.ignores author text := by
  refine t.handleMessage_cases now author text reference ?_ ?_ ?_ ?_
  · exact fun hno => iff_of_false nofun fun h => hno h.1
  · exact fun hcommand hignores => iff_of_true rfl ⟨hcommand, hignores⟩
  · exact fun _ hnew _ => iff_of_false nofun fun h => hnew h.2
  · exact fun _ hnew _ => iff_of_false nofun fun h => hnew h.2

/-- What a message can do to recent messages and batches. -/
inductive Handled (t : Team) (author text : String) (reference : Time) (t' : Team) :
    MessageOutcome → Prop where
  | passed {outcome : MessageOutcome} (hages : t.Ages t')
      (hno : ∀ batch requests dropped, outcome ≠ .scheduled batch requests dropped) :
      Handled t author text reference t' outcome
  | scheduled (requests : List Request) (dropped : Nat) (hfree : ¬t.ignores author text)
      (hscheduler : t'.scheduler = (t.scheduler.schedule requests reference).1)
      (hrecent : t.config.spamProtection → t'.recent = ((t.withScheduler t'.scheduler).remember
        (messageKey author text) t.scheduler.nextBatch).recent) :
      Handled t author text reference t'
        (.scheduled t.scheduler.nextBatch requests.length dropped)

theorem handled_handleMessage (text : String) : t.Handled author text reference
    (t.handleMessage now author text reference).1
    (t.handleMessage now author text reference).2.2 := by
  refine t.handleMessage_cases now author text reference ?_ ?_ ?_ ?_
  · exact fun _ => .passed ⟨rfl, .refl _⟩ nofun
  · exact fun _ _ => .passed ⟨rfl, .refl _⟩ nofun
  · exact fun _ _ _ => .passed ⟨rfl, .refl _⟩ nofun
  · intro _ hnew _
    let dropped := t.counted.drop now author (t.ordersOf text).reasons
    have hscheduler := scheduleMessage_scheduler dropped author reference
      (messageKey author text) (t.ordersOf text)
    refine .scheduled (t.ordersOf text).requests _ hnew hscheduler fun hspam => ?_
    rw [hscheduler]
    exact scheduleMessage_recent dropped author reference _ _ hspam

end Team

end CrowdPad
