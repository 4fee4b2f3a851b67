import CrowdPad.Proofs.Macro.Table
import CrowdPad.Proofs.Team.Station

/-! What happens to the macros of a team. Settings and verbs never change, messages and time leave the
macros alone, and what the operations on macros can do to the macros and the files is said once, so
that whatever holds of macros and macro files is proved for these few cases only. -/

namespace CrowdPad

namespace Team

/-- The macros of a team behind a change. -/
def changed (t : Team) (change : MacroChange) : MacroTable :=
  t.macros.apply t.verbs t.config.macros.limits change

/-- What a step can do to the files and to the macros of a team. Only what is restored counts whether or
not it is kept. -/
inductive Edit (files : Files) (t : Team) (σ : TeamStep) : Files → MacroTable → Prop where
  | kept : Edit files t σ files t.macros
  | saved (change : MacroChange) {files' : Files}
      (h : persist files t.config (t.changed change) = (files', .ok ())) :
      Edit files t σ files' (t.changed change)
  | refused (change : MacroChange) {files' : Files} {error : TeamError}
      (h : persist files t.config (t.changed change) = (files', .error error)) :
      Edit files t σ files' t.macros
  | loaded {file : Option MacroFile} (h : readMacroFile files t.config = .ok file) :
      Edit files t σ files (t.changed (.load (file.getD {}).macros))
  | restored (stored : StoredMacros) (h : σ = .restore stored) :
      Edit files t σ (persist files t.config (t.changed (.load stored))).1 (t.changed (.load stored))

/-- Whether a team came out of another one by an edit of its macros and without a change to its
settings and verbs. -/
structure Edited (t : Team) (σ : TeamStep) (files files' : Files) (t' : Team) : Prop where
  config : t'.config = t.config
  verbs : t'.verbs = t.verbs
  edit : Edit files t σ files' t'.macros

/-! ### What leaves the macros alone -/

/-- What a team answers with. -/
def repertoire (t : Team) : TeamConfig × VerbTable × MacroTable := (t.config, t.verbs, t.macros)

theorem edited_of_repertoire {t t' : Team} (σ : TeamStep) (files : Files)
    (h : t'.repertoire = t.repertoire) : t.Edited σ files files t' := by
  have hmacros : t'.macros = t.macros := congrArg (·.2.2) h
  refine ⟨congrArg (·.1) h, congrArg (·.2.1) h, ?_⟩
  rw [hmacros]
  exact .kept

variable (t : Team) (now : Time)

theorem repertoire_injectRandom : (t.injectRandom now).1.repertoire = t.repertoire :=
  t.injectRandom_cases now rfl fun _ _ _ _ _ => rfl

theorem repertoire_handleMessage (author text : String) (reference : Time) :
    (t.handleMessage now author text reference).1.repertoire = t.repertoire := by
  refine t.handleMessage_cases now author text reference ?_ ?_ ?_ ?_
  · exact fun _ => rfl
  · exact fun _ _ => rfl
  · exact fun _ _ _ => rfl
  · intro _ _ _
    rw [scheduleMessage_eq]
    rfl

theorem repertoire_tickRandom : (t.tickRandom now).1.repertoire = t.repertoire := by
  refine t.tickRandom_cases now ?_ ?_ ?_
  · exact fun _ => rfl
  · exact fun _ _ _ => rfl
  · intro time interval _ _ _
    exact repertoire_injectRandom { t with randomAt := some (nextRandomAt now time interval) } now

theorem repertoire_settle (network : Attempt) (device : Device) :
    (t.settle now network device).1.repertoire = t.repertoire :=
  repertoire_tickRandom (t.fire now).1 now

/-! ### What changes them -/

variable {t} {σ : TeamStep} {files files' : Files} {error : TeamError}

theorem Edited.unchanged (h : Edit files t σ files' t.macros) : t.Edited σ files files' t :=
  ⟨rfl, rfl, h⟩

section

variable {kind name : String} {made : Except MacroError MacroTable}
  (hmade : ∀ macros, made = .ok macros → ∃ change, macros = t.changed change)

include hmade

theorem edited_of_updateMacros {t' : Team} {notices : List Notice}
    (h : t.updateMacros files kind name made = (files', .ok (t', notices))) :
    t.Edited σ files files' t' := by
  obtain ⟨macros, hmacros, hsaved, rfl⟩ := updateMacros_eq_ok h
  obtain ⟨change, rfl⟩ := hmade macros hmacros
  exact ⟨rfl, rfl, .saved change hsaved⟩

theorem edit_of_updateMacros_error (h : t.updateMacros files kind name made = (files', .error error)) :
    Edit files t σ files' t.macros := by
  rcases updateMacros_eq_error h with rfl | ⟨macros, hmacros, hrefused⟩
  · exact .kept
  · obtain ⟨change, rfl⟩ := hmade macros hmacros
    exact .refused change hrefused

end

theorem edited_of_reset {now : Time} {t' : Team} {notices : List Notice}
    (h : t.reset files now = .ok (t', notices)) : t.Edited σ files files t' := by
  rw [reset_eq_map] at h
  obtain ⟨file, hread, htaken⟩ := exists_of_map_eq_ok h
  cases htaken
  exact ⟨rfl, rfl, .loaded hread⟩

theorem edited_of_reloadMacros {now : Time} {t' : Team} {notices : List Notice} {count : Nat}
    (h : reloadMacros files now t = .ok (t', notices, count)) : t.Edited σ files files t' := by
  rw [reloadMacros_eq_map] at h
  obtain ⟨file, hread, htaken⟩ := exists_of_map_eq_ok h
  cases file with
  | none =>
      cases htaken
      exact ⟨rfl, rfl, .kept⟩
  | some file =>
      cases htaken
      exact ⟨rfl, rfl, .loaded hread⟩

end Team

namespace TeamAction

variable {σ : TeamStep}

/-- Whether an action does to a team no more than an edit of its macros does, apart from what it does
to batches and records. -/
def Edits {α : Type} (action : TeamAction α) (σ : TeamStep) : Prop :=
  ∀ (files : Files) (now : Time) (t : Team),
    t.Edited σ files (action files now t).1 (action files now t).2.1

theorem edits_ofExcept {α : Type}
    {action : Files → Time → Team → Files × Except TeamError (Team × List Notice × α)}
    (hok : ∀ {files files' now notices a} {t t' : Team},
      action files now t = (files', .ok (t', notices, a)) → t.Edited σ files files' t')
    (herror : ∀ {files files' now error} {t : Team},
      action files now t = (files', .error error) → Team.Edit files t σ files' t.macros) :
    (ofExcept action).Edits σ := by
  intro files now t
  unfold ofExcept
  split
  · rename_i hdone
    exact hok hdone
  · rename_i hfailed
    exact .unchanged (herror hfailed)

theorem edits_ofExcept_unit
    (change : Files → Time → Team → Files × Except TeamError (Team × List Notice))
    (hok : ∀ {files files' now notices} {t t' : Team},
      change files now t = (files', .ok (t', notices)) → t.Edited σ files files' t')
    (herror : ∀ {files files' now error} {t : Team},
      change files now t = (files', .error error) → Team.Edit files t σ files' t.macros) :
    (ofExcept fun files now t =>
      let (files, result) := change files now t
      (files, result.map fun (t, notices) => (t, notices, ()))).Edits σ := by
  apply edits_ofExcept
  · intro files files' now notices a t t' hdone
    have hfiles : (change files now t).1 = files' := congrArg Prod.fst hdone
    obtain ⟨⟨t'', more⟩, hresult, heq⟩ := exists_of_map_eq_ok (congrArg Prod.snd hdone)
    cases heq
    exact hok (Prod.ext hfiles hresult)
  · intro files files' now error t hfailed
    have hfiles : (change files now t).1 = files' := congrArg Prod.fst hfailed
    cases hresult : (change files now t).2 with
    | ok done =>
        have hmapped := congrArg Prod.snd hfailed
        simp only [hresult] at hmapped
        cases hmapped
    | error fault => exact herror (Prod.ext hfiles hresult)

theorem edits_updateMacros (kind name : String) (made : Team → Except MacroError MacroTable)
    (hmade : ∀ t macros, made t = .ok macros → ∃ change, macros = t.changed change) :
    (ofExcept fun files _ t =>
      let (files, result) := t.updateMacros files kind name (made t)
      (files, result.map fun (t, notices) => (t, notices, ()))).Edits σ :=
  edits_ofExcept_unit (fun files _ t => t.updateMacros files kind name (made t))
    (fun hdone => Team.edited_of_updateMacros (hmade _) hdone)
    fun hfailed => Team.edit_of_updateMacros_error (hmade _) hfailed

theorem edits_addMacro (name body : String) : (addMacro name body).Edits σ := by
  refine edits_updateMacros "macro.added" name (fun t => _) fun t macros h => ?_
  exact ⟨.addBody t.config.grammar name body, (MacroTable.orKeep_ok h).symm⟩

theorem edits_changeMacro (name body : String) : (changeMacro name body).Edits σ := by
  refine edits_updateMacros "macro.changed" name (fun t => _) fun t macros h => ?_
  exact ⟨.changeBody t.config.grammar name body, (MacroTable.orKeep_ok h).symm⟩

theorem edits_removeMacro (name : String) : (removeMacro name).Edits σ := by
  refine edits_updateMacros "macro.removed" name (fun t => _) fun t macros h => ?_
  exact ⟨.remove name, (MacroTable.orKeep_ok h).symm⟩

theorem edits_reset : reset.Edits σ := by
  refine edits_ofExcept_unit (fun files now t => (files, t.reset files now)) ?_ ?_
  · intro files files' now notices t t' hdone
    cases congrArg Prod.fst hdone
    exact Team.edited_of_reset (congrArg Prod.snd hdone)
  · intro files files' now error t hfailed
    cases congrArg Prod.fst hfailed
    exact .kept

theorem edits_reloadMacros : reloadMacros.Edits σ := by
  apply edits_ofExcept
  · intro files files' now notices a t t' hdone
    cases congrArg Prod.fst hdone
    exact Team.edited_of_reloadMacros (congrArg Prod.snd hdone)
  · intro files files' now error t hfailed
    cases congrArg Prod.fst hfailed
    exact .kept

theorem edits_restore (stored : StoredMacros) : (restore stored).Edits (.restore stored) :=
  fun _ _ _ => ⟨rfl, rfl, .restored stored rfl⟩

end TeamAction

/-- Whether a step is for the sake of macros, or for theirs among others. -/
def TeamStep.onMacros : TeamStep → Bool
  | .reset | .addMacro .. | .changeMacro .. | .removeMacro .. | .reloadMacros | .restore .. => true
  | _ => false

namespace Station

variable (s : Station)

/-- The files as an action on macros leaves them, before anything is logged or published. -/
def filesBehind (σ : TeamStep) : Files :=
  let behind {α : Type} (action : TeamAction α) : Files :=
    (action s.host.files s.host.now s.team).1
  match σ with
  | .reset => behind .reset
  | .addMacro name body => behind (.addMacro name body)
  | .changeMacro name body => behind (.changeMacro name body)
  | .removeMacro name => behind (.removeMacro name)
  | .reloadMacros => behind .reloadMacros
  | .restore stored => behind (.restore stored)
  | _ => s.host.files

theorem repertoire_settle (now : Time) : (s.settle now).team.repertoire = s.team.repertoire :=
  s.team.repertoire_settle now s.host.network s.host.device

/-- Most steps leave macros and files to the rest. -/
theorem repertoire_step {σ : TeamStep} (hσ : σ.onMacros = false) :
    (s.step σ).team.repertoire = s.team.repertoire ∧ s.filesBehind σ = s.host.files := by
  have hsettle : ∀ now (s' : Station), s'.team.repertoire = s.team.repertoire →
      (s'.settle now).team.repertoire = s.team.repertoire :=
    fun now s' h => (s'.repertoire_settle now).trans h
  cases σ with
  | message author text shift =>
      exact ⟨s.team.repertoire_handleMessage s.host.now author text (s.host.now + shift), rfl⟩
  | cancelAll => exact ⟨rfl, rfl⟩
  | cancelBatch batch => exact ⟨rfl, rfl⟩
  | injectRandom => exact ⟨s.team.repertoire_injectRandom s.host.now, rfl⟩
  | setRandom on => exact ⟨rfl, rfl⟩
  | reseed seed => exact ⟨rfl, rfl⟩
  | changeFiles files => exact ⟨rfl, rfl⟩
  | fire => exact ⟨rfl, rfl⟩
  | tickRandom => exact ⟨s.team.repertoire_tickRandom s.host.now, rfl⟩
  | work => exact ⟨rfl, rfl⟩
  | retire => exact ⟨rfl, rfl⟩
  | wait ms => exact ⟨Clock.wait_keeps hsettle _ _ _ rfl, rfl⟩
  | advance ms => exact ⟨Clock.advance_keeps hsettle _ _ rfl, rfl⟩
  | reset | addMacro name body | changeMacro name body | removeMacro name | reloadMacros
  | restore stored => cases hσ

theorem edited_step (σ : TeamStep) :
    s.team.Edited σ s.host.files (s.filesBehind σ) (s.step σ).team := by
  cases hσ : σ.onMacros with
  | false =>
      obtain ⟨hsame, hfiles⟩ := s.repertoire_step hσ
      rw [hfiles]
      exact Team.edited_of_repertoire σ s.host.files hsame
  | true =>
      cases σ with
      | reset => exact TeamAction.edits_reset s.host.files s.host.now s.team
      | addMacro name body => exact TeamAction.edits_addMacro name body s.host.files s.host.now s.team
      | changeMacro name body =>
          exact TeamAction.edits_changeMacro name body s.host.files s.host.now s.team
      | removeMacro name => exact TeamAction.edits_removeMacro name s.host.files s.host.now s.team
      | reloadMacros => exact TeamAction.edits_reloadMacros s.host.files s.host.now s.team
      | restore stored => exact TeamAction.edits_restore stored s.host.files s.host.now s.team
      | _ => cases hσ

end Station

end CrowdPad
