import CrowdPad.Proofs.Data.Entries
import CrowdPad.Proofs.Team.MacroFile
import CrowdPad.Proofs.Team.Recent

/-! Repeated messages. A team remembers only the newest batch of each message, and forgets batches
that are over when there are many. It answers all the same as if it knew every message that was ever
scheduled, since a batch that is over stays over, and while one still runs no other is scheduled for
its message. -/

namespace CrowdPad

/-! ### What is remembered of what was sent -/

/-- A message that was scheduled, with its batch. -/
structure Sent where
  author : String
  text : String
  batch : Nat

def Sent.key (m : Sent) : MessageKey := Team.messageKey m.author m.text

/-- Two messages are the same for spam protection if their authors are, and their texts apart from the
white space around them. -/
theorem Sent.key_eq_iff (m : Sent) (author text : String) :
    m.key = Team.messageKey author text ↔
      m.author = author ∧ Text.trim m.text.toList = Text.trim text.toList := by
  rw [Sent.key, Team.messageKey, Team.messageKey, Prod.mk.injEq, String.ofList_inj]

/-- Recent messages to which one was added, and nothing was forgotten. -/
def Team.noted (recent : List (MessageKey × Nat)) (m : Sent) : List (MessageKey × Nat) :=
  (recent.filter fun entry => entry.1 != m.key) ++ [(m.key, m.batch)]

/-- Whether recent messages are enough to know of every message that was sent whether it still runs. -/
structure Remembers (sent : List Sent) (recent : List (MessageKey × Nat)) (s : Scheduler) : Prop where
  known : ∀ m ∈ sent, m.batch < s.nextBatch
  ordered : sent.Pairwise fun m m' => m.batch < m'.batch
  stems : ∀ entry ∈ recent, ∃ m ∈ sent, m.key = entry.1 ∧ m.batch = entry.2
  kept : ∀ m ∈ sent, s.isActive m.batch → recent.lookup m.key = some m.batch

namespace Remembers

variable {sent : List Sent} {recent : List (MessageKey × Nat)} {s s' : Scheduler}

theorem nil (s : Scheduler) : Remembers [] [] s := ⟨nofun, .nil, nofun, nofun⟩

theorem ages (h : Remembers sent recent s) (hages : s.Ages s') : Remembers sent recent s' where
  known := fun m hm => (h.known m hm).trans_le hages.numbers
  ordered := h.ordered
  stems := h.stems
  kept := fun m hm hactive => h.kept m hm (hages.past m.batch (h.known m hm) hactive)

theorem forget (h : Remembers sent recent s) {keeps : MessageKey × Nat → Bool}
    (hkeeps : ∀ entry, s.isActive entry.2 → keeps entry) :
    Remembers sent (recent.filter keeps) s where
  known := h.known
  ordered := h.ordered
  stems := fun entry hentry => h.stems entry (List.mem_filter.mp hentry).1
  kept := fun m hm hactive => lookup_filter_of_lookup (h.kept m hm hactive) (hkeeps _ hactive)

/-- While no other batch runs for a message, it is enough to know its newest one. -/
theorem noted (h : Remembers sent recent s) {m : Sent} (hknown : m.batch < s.nextBatch)
    (hnewest : ∀ other ∈ sent, other.batch < m.batch)
    (hfree : ∀ other ∈ sent, other.key = m.key → ¬s.isActive other.batch) :
    Remembers (sent ++ [m]) (Team.noted recent m) s := by
  refine ⟨?_, ?_, ?_, ?_⟩
  · intro other hother
    rcases List.mem_append.mp hother with hold | hnew
    · exact h.known other hold
    · rw [List.mem_singleton.mp hnew]
      exact hknown
  · refine List.pairwise_append.mpr ⟨h.ordered, List.pairwise_singleton _ _, ?_⟩
    intro other hold last hlast
    rw [List.mem_singleton.mp hlast]
    exact hnewest other hold
  · intro entry hentry
    rcases List.mem_append.mp hentry with hold | hnew
    · obtain ⟨other, hother, hkey⟩ := h.stems entry (List.mem_filter.mp hold).1
      exact ⟨other, List.mem_append_left _ hother, hkey⟩
    · rw [List.mem_singleton.mp hnew]
      exact ⟨m, List.mem_append_right _ (List.mem_singleton_self m), rfl, rfl⟩
  · intro other hother hactive
    rw [Team.noted, List.lookup_append, lookup_filter_ne]
    rcases List.mem_append.mp hother with hold | hnew
    · have hne : ¬(other.key == m.key) = true := fun hsame =>
        hfree other hold (beq_iff_eq.mp hsame) hactive
      rw [if_neg hne, h.kept other hold hactive, Option.some_or]
    · rw [List.mem_singleton.mp hnew, if_pos BEq.rfl, Option.none_or, List.lookup_cons_self]

/-- No two messages that are the same both run. -/
theorem pairwise (h : Remembers sent recent s) :
    sent.Pairwise fun m m' => m.key = m'.key → ¬(s.isActive m.batch ∧ s.isActive m'.batch) := by
  refine h.ordered.imp_of_mem fun {m m'} hm hm' hlt hkey hactive => ?_
  have hfound := h.kept m hm hactive.1
  rw [hkey, h.kept m' hm' hactive.2] at hfound
  exact hlt.ne' (Option.some.inj hfound)

theorem stillRuns_iff {t : Team} (h : Remembers sent t.recent t.scheduler) (key : MessageKey) :
    t.stillRuns key ↔ ∃ m ∈ sent, m.key = key ∧ t.scheduler.isActive m.batch := by
  unfold Team.stillRuns
  constructor
  · intro hruns
    split at hruns
    · rename_i batch hfound
      obtain ⟨m, hm, hkey, rfl⟩ := h.stems (key, batch) (mem_of_lookup hfound)
      exact ⟨m, hm, hkey, hruns⟩
    · exact absurd hruns Bool.false_ne_true
  · rintro ⟨m, hm, rfl, hactive⟩
    rw [h.kept m hm hactive]
    exact hactive

/-- What a team remembers of a message that it has just scheduled. -/
theorem remember {t : Team} (h : Remembers sent t.recent t.scheduler) {m : Sent}
    (hknown : m.batch < t.scheduler.nextBatch) (hnewest : ∀ other ∈ sent, other.batch < m.batch)
    (hfree : ∀ other ∈ sent, other.key = m.key → ¬t.scheduler.isActive other.batch) :
    Remembers (sent ++ [m]) (t.remember m.key m.batch).recent t.scheduler := by
  unfold Team.remember
  simp only
  split
  · exact (h.forget fun _ hactive => hactive).noted hknown hnewest hfree
  · exact h.noted hknown hnewest hfree

end Remembers

/-! ### Runs -/

namespace Station

variable (s : Station)

/-- The answer to a message. -/
def answer (author text : String) (shift : Time) : MessageOutcome :=
  (Hub.perform s.host s.member (.message author text shift)).2.2

/-- The message that a step schedules, if it does. -/
def sentBy : TeamStep → List Sent
  | .message author text shift =>
    match s.answer author text shift with
    | .scheduled batch _ _ => [{ author, text, batch }]
    | _ => []
  | _ => []

/-- The messages that a run schedules. -/
def sent : Station → List TeamStep → List Sent
  | _, [] => []
  | s, σ :: rest => s.sentBy σ ++ sent (s.step σ) rest

def withRecent (recent : List (MessageKey × Nat)) (s : Station) : Station :=
  { s with member := { s.member with team := s.member.team.withRecent recent } }

/-- A step behind which nothing that was remembered before is forgotten. -/
def stepUnpruned (σ : TeamStep) : Station :=
  (s.step σ).withRecent ((s.sentBy σ).foldl Team.noted s.team.recent)

def runUnpruned (steps : List TeamStep) : Station := steps.foldl stepUnpruned s

variable {s}

theorem perform_withRecent {α : Type} (action : TeamAction α) (h : action.Blind)
    (recent : List (MessageKey × Nat)) :
    (s.withRecent recent).perform action = (s.perform action).withRecent recent := by
  have haction : action s.host.files s.host.now (s.withRecent recent).team = _ :=
    h s.host.files s.host.now s.team recent
  exact congrArg (fun done : Files × Team × List Notice × α =>
    ({ host := { s.host with files := done.1 }.notifyAll s.member.telemetry done.2.2.1
       member := { s.member with team := done.2.1 } } : Station)) haction

theorem change_withRecent (f : Team → Team × List Notice) (recent : List (MessageKey × Nat))
    (h : ∀ t : Team, f (t.withRecent recent) = ((f t).1.withRecent recent, (f t).2)) :
    (s.withRecent recent).change f = (s.change f).withRecent recent :=
  congrArg (fun done : Team × List Notice =>
    ({ host := s.host.notifyAll s.member.telemetry done.2
       member := { s.member with team := done.1 } } : Station)) (h s.team)

theorem settle_withRecent (recent : List (MessageKey × Nat)) (now : Time) :
    (s.withRecent recent).settle now = (s.settle now).withRecent recent := by
  have hteam : (s.withRecent recent).team.settle now s.host.network s.host.device = _ :=
    s.team.settle_withRecent recent now s.host.network s.host.device
  exact congrArg (fun done : Team × Device × List Notice × List Batch =>
    ({ host := ({ s.host with now, device := done.2.1 }.notifyAll s.member.telemetry done.2.2.1).flush
       member := { s.member with team := done.1 } } : Station)) hteam

/-- Messages and resets apart, a step looks at recent messages as little as it changes them. -/
theorem step_withRecent (recent : List (MessageKey × Nat)) {σ : TeamStep} (hreset : σ ≠ .reset)
    (hmessage : ∀ author text shift, σ ≠ .message author text shift) :
    (s.withRecent recent).step σ = (s.step σ).withRecent recent := by
  have hsettle : ∀ now (s' s : Station), s' = s.withRecent recent →
      s'.settle now = (s.settle now).withRecent recent := by
    rintro now _ s rfl
    exact s.settle_withRecent recent now
  have hnext : ∀ s' s : Station, s' = s.withRecent recent → s'.nextDue? = s.nextDue? := by
    rintro _ s rfl
    rfl
  cases σ with
  | message author text shift => exact absurd rfl (hmessage author text shift)
  | reset => exact absurd rfl hreset
  | cancelAll => exact perform_withRecent .cancelAll (fun _ _ _ _ => rfl) recent
  | cancelBatch batch => exact perform_withRecent (.cancelBatch batch) (fun _ _ _ _ => rfl) recent
  | injectRandom =>
      refine perform_withRecent .injectRandom (fun files now t recent => ?_) recent
      exact congrArg (Prod.mk files) (t.injectRandom_withRecent recent now)
  | setRandom on => exact perform_withRecent (.setRandom on) (fun _ _ _ _ => rfl) recent
  | reseed seed => exact change_withRecent (fun t => ({ t with seed }, [])) recent fun _ => rfl
  | addMacro name body =>
      exact perform_withRecent _ (TeamAction.blind_addMacro name body) recent
  | changeMacro name body =>
      exact perform_withRecent _ (TeamAction.blind_changeMacro name body) recent
  | removeMacro name => exact perform_withRecent _ (TeamAction.blind_removeMacro name) recent
  | reloadMacros => exact perform_withRecent _ TeamAction.blind_reloadMacros recent
  | restore stored => exact perform_withRecent (.restore stored) (fun _ _ _ _ => rfl) recent
  | changeFiles files => rfl
  | fire => exact change_withRecent (fun t => t.fire s.host.now) recent fun _ => rfl
  | tickRandom => exact change_withRecent _ recent fun t => t.tickRandom_withRecent recent s.host.now
  | work => rfl
  | retire =>
      exact change_withRecent (fun t => ({ t with playback := t.playback.retire.1 }, [])) recent
        fun _ => rfl
  | wait ms =>
      have hlater := Clock.wait_related hsettle hnext (s.host.now + ms) s.host.now
        (s := s.withRecent recent) rfl
      exact congrArg₂ (fun now (s : Station) => { s with host := { s.host with now } })
        hlater.1 hlater.2
  | advance ms => exact Clock.advance_related hsettle hnext _ _ (s := s.withRecent recent) rfl

theorem ages_step {σ : TeamStep} (hreset : σ ≠ .reset)
    (hmessage : ∀ author text shift, σ ≠ .message author text shift) :
    s.team.Ages (s.step σ).team := by
  have hsettle : ∀ now (s' : Station), s.team.Ages s'.team → s.team.Ages (s'.settle now).team :=
    fun now s' h => h.trans (s'.team.ages_settle now s'.host.network s'.host.device)
  cases σ with
  | message author text shift => exact absurd rfl (hmessage author text shift)
  | reset => exact absurd rfl hreset
  | cancelAll => exact ⟨rfl, s.team.shifts_cancelAll.ages⟩
  | cancelBatch batch => exact ⟨rfl, (s.team.shifts_cancelBatch batch).ages⟩
  | injectRandom => exact s.team.ages_injectRandom s.host.now
  | setRandom on => exact ⟨rfl, .refl _⟩
  | reseed seed => exact ⟨rfl, .refl _⟩
  | addMacro name body =>
      exact Team.ages_of_macros
        (TeamAction.exists_macros_addMacro name body s.host.files s.host.now s.team)
  | changeMacro name body =>
      exact Team.ages_of_macros
        (TeamAction.exists_macros_changeMacro name body s.host.files s.host.now s.team)
  | removeMacro name =>
      exact Team.ages_of_macros
        (TeamAction.exists_macros_removeMacro name s.host.files s.host.now s.team)
  | reloadMacros => exact s.team.ages_reloadMacros s.host.now s.host.files
  | restore stored => exact ⟨rfl, .refl _⟩
  | changeFiles files => exact .refl _
  | fire => exact s.team.ages_fire s.host.now
  | tickRandom => exact s.team.ages_tickRandom s.host.now
  | work => exact s.team.ages_work s.host.now s.host.network s.host.device
  | retire => exact s.team.ages_retire
  | wait ms => exact Clock.wait_keeps hsettle _ _ _ (.refl _)
  | advance ms => exact Clock.advance_keeps hsettle _ _ (.refl _)

/-- What a step does that schedules a message. -/
structure Sends (s : Station) (m : Sent) (s' : Station) : Prop where
  free : ¬s.team.ignores m.author m.text
  batch : m.batch = s.team.scheduler.nextBatch
  scheduler : ∃ requests reference,
    s'.team.scheduler = (s.team.scheduler.schedule requests reference).1
  recent : s.team.config.spamProtection →
    s'.team.recent = ((s.team.withScheduler s'.team.scheduler).remember m.key m.batch).recent

/-- A step schedules one message or none. -/
theorem step_sends {σ : TeamStep} (hreset : σ ≠ .reset) :
    s.sentBy σ = [] ∧ s.team.Ages (s.step σ).team ∨
      ∃ m, s.sentBy σ = [m] ∧ s.Sends m (s.step σ) := by
  by_cases hmessage : ∃ author text shift, σ = .message author text shift
  · obtain ⟨author, text, shift, rfl⟩ := hmessage
    have hhandled := s.team.handled_handleMessage s.host.now author (s.host.now + shift) text
    generalize houtcome : (s.team.handleMessage s.host.now author text
      (s.host.now + shift)).2.2 = outcome at hhandled
    have hanswer : s.answer author text shift = outcome := houtcome
    cases hhandled with
    | passed hages hno =>
        refine .inl ⟨?_, hages⟩
        rw [sentBy, hanswer]
        split
        · exact absurd rfl (hno _ _ _)
        · rfl
    | scheduled requests dropped hfree hscheduler hrecent =>
        refine .inr ⟨{ author, text, batch := s.team.scheduler.nextBatch }, ?_, ?_⟩
        · rw [sentBy, hanswer]
        · exact ⟨hfree, rfl, ⟨requests, _, hscheduler⟩, hrecent⟩
  · have hother : ∀ author text shift, σ ≠ .message author text shift :=
      fun author text shift h => hmessage ⟨author, text, shift, h⟩
    refine .inl ⟨?_, ages_step hreset hother⟩
    cases σ with
    | message author text shift => exact absurd rfl (hother author text shift)
    | _ => rfl

variable {sent : List Sent} {recent : List (MessageKey × Nat)}

theorem Sends.known {m : Sent} {s' : Station} (h : s.Sends m s') :
    m.batch < s'.team.scheduler.nextBatch := by
  obtain ⟨requests, reference, hscheduler⟩ := h.scheduler
  rw [hscheduler, h.batch]
  exact Nat.lt_succ_self _

theorem Sends.ages {m : Sent} {s' : Station} (h : s.Sends m s') :
    s.team.scheduler.Ages s'.team.scheduler := by
  obtain ⟨requests, reference, hscheduler⟩ := h.scheduler
  rw [hscheduler]
  exact s.team.scheduler.ages_schedule requests reference

/-- No message that is the same as one that was just scheduled still runs. -/
theorem Sends.not_isActive {m : Sent} {s' : Station} (h : s.Sends m s')
    (hspam : s.team.config.spamProtection)
    (hremembers : Remembers sent s.team.recent s.team.scheduler) {other : Sent} (hother : other ∈ sent)
    (hkey : other.key = m.key) : ¬s'.team.scheduler.isActive other.batch := by
  intro hactive
  have hbefore := h.ages.past other.batch (hremembers.known other hother) hactive
  have hruns := (hremembers.stillRuns_iff m.key).mpr ⟨other, hother, hkey, hbefore⟩
  exact h.free (Bool.and_eq_true_iff.mpr ⟨hspam, hruns⟩)

/-- A step keeps what is remembered in step with what was sent, and the unpruned table as well. -/
theorem remembers_step {σ : TeamStep} (hreset : σ ≠ .reset) (hspam : s.team.config.spamProtection)
    (h : Remembers sent s.team.recent s.team.scheduler)
    (hunpruned : Remembers sent recent s.team.scheduler) :
    Remembers (sent ++ s.sentBy σ) (s.step σ).team.recent (s.step σ).team.scheduler ∧
      Remembers (sent ++ s.sentBy σ) ((s.sentBy σ).foldl Team.noted recent)
        (s.step σ).team.scheduler := by
  rcases step_sends (s := s) hreset with ⟨hnone, hages⟩ | ⟨m, hone, hsends⟩
  · rw [hnone, List.append_nil, hages.recent]
    exact ⟨h.ages hages.scheduler, hunpruned.ages hages.scheduler⟩
  · have hnewest : ∀ other ∈ sent, other.batch < m.batch := fun other hother => by
      rw [hsends.batch]
      exact h.known other hother
    have hfree : ∀ other ∈ sent, other.key = m.key →
        ¬(s.step σ).team.scheduler.isActive other.batch :=
      fun other hother hkey => hsends.not_isActive hspam h hother hkey
    rw [hone, hsends.recent hspam]
    exact ⟨(h.ages hsends.ages).remember (t := s.team.withScheduler (s.step σ).team.scheduler)
        hsends.known hnewest hfree,
      (hunpruned.ages hsends.ages).noted hsends.known hnewest hfree⟩

/-- A team that never forgets answers as one that does. -/
theorem answer_withRecent (h : Remembers sent s.team.recent s.team.scheduler)
    (hunpruned : Remembers sent recent s.team.scheduler) (author text : String) (shift : Time) :
    (s.withRecent recent).answer author text shift = s.answer author text shift ∧
      ∀ other, ((s.withRecent recent).step (.message author text shift)).withRecent other =
        (s.step (.message author text shift)).withRecent other := by
  have hruns : (s.team.withRecent recent).stillRuns (Team.messageKey author text) =
      s.team.stillRuns (Team.messageKey author text) := by
    rw [Bool.eq_iff_iff, h.stillRuns_iff,
      Remembers.stillRuns_iff (t := s.team.withRecent recent) hunpruned]
    rfl
  have hignores : (s.team.withRecent recent).ignores author text = s.team.ignores author text :=
    congrArg (s.team.config.spamProtection && ·) hruns
  obtain ⟨hrest, hteam⟩ := s.team.handleMessage_withRecent s.host.now author (s.host.now + shift)
    recent hignores
  have hnotices := congrArg Prod.fst hrest
  have houtcome := congrArg Prod.snd hrest
  refine ⟨houtcome, fun other => ?_⟩
  exact congrArg₂ (fun (team : Team) notices =>
    ({ host := s.host.notifyAll s.member.telemetry notices
       member := { s.member with team } } : Station)) (hteam other) hnotices

theorem sentBy_withRecent (h : Remembers sent s.team.recent s.team.scheduler)
    (hunpruned : Remembers sent recent s.team.scheduler) (σ : TeamStep) :
    (s.withRecent recent).sentBy σ = s.sentBy σ := by
  cases σ with
  | message author text shift =>
      rw [sentBy, sentBy, (answer_withRecent h hunpruned author text shift).1]
  | _ => rfl

theorem stepUnpruned_withRecent {σ : TeamStep} (hreset : σ ≠ .reset)
    (h : Remembers sent s.team.recent s.team.scheduler)
    (hunpruned : Remembers sent recent s.team.scheduler) :
    (s.withRecent recent).stepUnpruned σ =
      (s.step σ).withRecent ((s.sentBy σ).foldl Team.noted recent) := by
  rw [stepUnpruned, sentBy_withRecent h hunpruned]
  by_cases hmessage : ∃ author text shift, σ = .message author text shift
  · obtain ⟨author, text, shift, rfl⟩ := hmessage
    exact (answer_withRecent h hunpruned author text shift).2 _
  · rw [step_withRecent recent hreset fun author text shift h => hmessage ⟨author, text, shift, h⟩]
    rfl

theorem remembers_run {steps : List TeamStep} (hreset : .reset ∉ steps)
    (hspam : s.team.config.spamProtection) (h : Remembers sent s.team.recent s.team.scheduler)
    (hunpruned : Remembers sent recent s.team.scheduler) :
    Remembers (sent ++ s.sent steps) (s.run steps).team.recent (s.run steps).team.scheduler ∧
      ∃ table, (s.withRecent recent).runUnpruned steps = (s.run steps).withRecent table ∧
        Remembers (sent ++ s.sent steps) table (s.run steps).team.scheduler := by
  induction steps generalizing s sent recent with
  | nil =>
      rw [Station.sent, List.append_nil]
      exact ⟨h, recent, rfl, hunpruned⟩
  | cons σ rest ih =>
      obtain ⟨hσ, hrest⟩ := not_or.mp (mt List.mem_cons.mpr hreset)
      obtain ⟨hstep, hstepUnpruned⟩ := remembers_step (Ne.symm hσ) hspam h hunpruned
      have hspam' : (s.step σ).team.config.spamProtection := by
        rw [(s.edited_step σ).config]
        exact hspam
      rw [Station.sent, ← List.append_assoc]
      obtain ⟨hpruned, table, htable, hlast⟩ := ih hrest hspam' hstep hstepUnpruned
      rw [← stepUnpruned_withRecent (Ne.symm hσ) h hunpruned] at htable
      exact ⟨hpruned, table, htable, hlast⟩

variable {host : Host} {seed : Nat} {config : TeamConfig} {verbs : VerbTable}
  {telemetry : Option Telemetry}

theorem run_config (s : Station) (steps : List TeamStep) :
    (s.run steps).team.config = s.team.config := by
  induction steps generalizing s with
  | nil => rfl
  | cons σ rest ih => exact (ih (s.step σ)).trans (s.edited_step σ).config

theorem start_recent (hstart : start host seed config verbs telemetry = .ok s) :
    s.team.config = config ∧ s.team.recent = [] := by
  obtain ⟨team, notices, hteam, rfl⟩ := exists_of_start_eq_ok hstart
  obtain ⟨-, -, file, -, rfl⟩ := Team.exists_of_start_eq_ok hteam
  exact ⟨rfl, rfl⟩

/-- **Exact spam protection.** Whatever messages are sent and whatever else is done to a team short of
a reset, a message is ignored as a repeat if and only if it is a command and some batch of an earlier
message runs that has the same author and, apart from the white space around it, the same text. No two
such batches run at a time, and the answers are those of a team that forgets no recent message. -/
theorem duplicate_exactly_while_active
    (hstart : start host seed config verbs telemetry = .ok s)
    (hspam : config.spamProtection = true) {steps : List TeamStep} (hreset : .reset ∉ steps) :
    (∀ author text shift, (s.run steps).answer author text shift = .duplicate ↔
      (∃ word ∈ Text.words text, (config.grammar.marked? word).isSome) ∧
        ∃ m ∈ s.sent steps, m.author = author ∧
          Text.trim m.text.toList = Text.trim text.toList ∧
          (s.run steps).team.scheduler.isActive m.batch) ∧
    (s.sent steps).Pairwise (fun m m' =>
      m.author = m'.author ∧ Text.trim m.text.toList = Text.trim m'.text.toList →
        ¬((s.run steps).team.scheduler.isActive m.batch ∧
          (s.run steps).team.scheduler.isActive m'.batch)) ∧
    ∀ author text shift,
      (s.runUnpruned steps).answer author text shift = (s.run steps).answer author text shift := by
  obtain ⟨hconfig, hrecent⟩ := start_recent hstart
  have hnone : Remembers [] s.team.recent s.team.scheduler := by
    rw [hrecent]
    exact .nil _
  have hspam' : s.team.config.spamProtection := by
    rw [hconfig]
    exact hspam
  obtain ⟨hremembers, table, htable, hunpruned⟩ := remembers_run hreset hspam' hnone hnone
  rw [List.nil_append] at hremembers hunpruned
  refine ⟨fun author text shift => ?_, ?_, fun author text shift => ?_⟩
  · have hiff := (s.run steps).team.handleMessage_eq_duplicate_iff (s.run steps).host.now author
      ((s.run steps).host.now + shift) text
    have hsame : (s.run steps).team.config = config := (run_config s steps).trans hconfig
    refine hiff.trans (and_congr ?_ ?_)
    · rw [hsame]
      exact List.any_eq_true
    · rw [Team.ignores, hsame, hspam, Bool.true_and, hremembers.stillRuns_iff]
      simp only [Sent.key_eq_iff, and_assoc]
  · refine hremembers.pairwise.imp fun {m m'} hkeys hsame => hkeys ?_
    exact (m.key_eq_iff m'.author m'.text).mpr hsame
  · have hsame : s.runUnpruned steps = (s.run steps).withRecent table := htable
    rw [hsame]
    exact (answer_withRecent hremembers hunpruned author text shift).1

/-- A jump is not made twice while the first one lasts, however the message is spaced. -/
theorem duplicate_behind_spaces :
    ((keeping "m.json" {}).run [.message "ann" "+jump" 0, .fire, .work]).answer "ann" " +jump  " 0 =
      .duplicate := by
  have hstart : start (keeping "m.json" {}).host 0 (keeping "m.json" {}).team.config
      MacroTable.jumpAndRight none = .ok (keeping "m.json" {}) := rfl
  have hsent : { author := "ann", text := "+jump", batch := 1 } ∈
      (keeping "m.json" {}).sent [.message "ann" "+jump" 0, .fire, .work] := by
    have hscheduled : (keeping "m.json" {}).answer "ann" "+jump" 0 = .scheduled 1 1 0 := by
      decide +kernel
    rw [sent, sentBy, hscheduled]
    exact List.mem_cons_self ..
  have hactive : ((keeping "m.json" {}).run
      [.message "ann" "+jump" 0, .fire, .work]).team.scheduler.isActive 1 := by decide +kernel
  refine ((duplicate_exactly_while_active hstart rfl (by simp)).1 _ _ _).mpr ⟨?_, ?_⟩
  · exact ⟨"+jump".toList, by decide +kernel, by decide +kernel⟩
  · exact ⟨_, hsent, rfl, by decide +kernel, hactive⟩

end Station

end CrowdPad
