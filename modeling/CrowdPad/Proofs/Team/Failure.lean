import CrowdPad.Proofs.Team.MacroFile

/-! Operations that fail. Changes of macros, reloads and resets are written out in the order in which
they take effect, with a state that outlives an error, so that whatever an operation had changed before
it failed would show. Nothing does: what can fail comes before the first change to the team, and of the
files it touches only folders around the macro file and the file that is staged beside it. -/

namespace CrowdPad

/-- What an operation works on. -/
structure Desk where
  files : Files
  team : Team
  notices : List Notice := []

/-- An operation, step by step. What it has changed stays changed when it fails. -/
def Deed (α : Type) := Desk → Except TeamError α × Desk

namespace Deed

instance : Monad Deed where
  pure a := fun d => (.ok a, d)
  bind deed next := fun d =>
    match deed d with
    | (.ok a, d) => next a d
    | (.error error, d) => (.error error, d)

section

variable {α β : Type} {deed : Deed α} {next : α → Deed β} {d d' : Desk}

theorem bind_of_ok {a : α} (h : deed d = (.ok a, d')) : (deed >>= next) d = next a d' := by
  show (match deed d with
    | (.ok a, d) => next a d
    | (.error error, d) => (.error error, d)) = next a d'
  rw [h]

theorem bind_of_error {error : TeamError} (h : deed d = (.error error, d')) :
    (deed >>= next) d = (.error error, d') := by
  show (match deed d with
    | (.ok a, d) => next a d
    | (.error error, d) => (.error error, d)) = (.error error, d')
  rw [h]

end

def desk : Deed Desk := fun d => (.ok d, d)

def fail {α : Type} (error : TeamError) : Deed α := fun d => (.error error, d)

def change (f : Team → Team) : Deed Unit := fun d => (.ok (), { d with team := f d.team })

def tell (notice : Notice) : Deed Unit :=
  fun d => (.ok (), { d with notices := d.notices ++ [notice] })

/-- Goes on only if macros may be changed. -/
def permit : Deed Unit := do
  let d ← desk
  if d.team.config.macros.allowChanges then return () else fail (.macros .changesDisabled)

/-- Makes changed macros of those of the team. -/
def make (made : Team → Except MacroError MacroTable) : Deed MacroTable := do
  let d ← desk
  match made d.team with
  | .ok macros => return macros
  | .error error => fail (.macros error)

/-- Writes macros to the file. What writing leaves behind is there even if it fails. -/
def persist (macros : MacroTable) : Deed Unit := fun d =>
  let (files, result) := Team.persist d.files d.team.config macros
  (result, { d with files })

/-- A change of macros: made, then kept in the file, and only then taken over and told. -/
def update (kind name : String) (made : Team → Except MacroError MacroTable) : Deed Unit := do
  permit
  let macros ← make made
  persist macros
  change fun t => { t with macros }
  let payload : Value := .record [("macro", .text (Text.lower name))]
  tell (.log .info kind payload)
  tell (.event kind payload)

/-- Reads the macro file, if there is one to be read. -/
def readFile : Deed (Option MacroFile) := fun d => (Team.readMacroFile d.files d.team.config, d)

def reload (now : Time) : Deed Nat := do
  match ← readFile with
  | none => return (← desk).team.macros.entries.length
  | some file =>
    change (Team.withMacroFile now file)
    let loaded := (← desk).team.macros.entries.length
    tell (.log .info "macro.reloaded" (.record [("macros", .nat loaded)]))
    return loaded

def reset (now : Time) : Deed Unit := do
  let file ← readFile
  let batches := (← desk).team.scheduler.activeBatches
  change fun t => t.withScheduler t.scheduler.cancelAll
  change fun t => { t with
    counters := { t.counters with cancellations := t.counters.cancellations + 1 } }
  tell (.log .info "team.cancelled" (.record [("batches", .nat batches)]))
  change fun t => { t with recent := [] }
  change fun t => { t with dropped := t.dropped.clear, failures := t.failures.clear }
  change (Team.withMacroFile now (file.getD {}))
  tell (.log .info "team.reset" (.record []))

/-- What an operation comes to, and what is there then, whether it failed or not. -/
def carryOut {α : Type} (deed : Time → Deed α) : TeamAction (Except TeamError α) :=
  fun files now t =>
    let (result, d) := deed now { files, team := t }
    (d.files, d.team, d.notices, result)

/-! ### The operations are those that run -/

section

variable {files : Files} {now : Time} {t : Team}

theorem permit_eq (d : Desk) : permit d = (if d.team.config.macros.allowChanges then .ok ()
    else .error (.macros .changesDisabled), d) := by
  show (if d.team.config.macros.allowChanges then pure () else fail _ : Deed Unit) d = _
  split <;> rfl

theorem make_eq (made : Team → Except MacroError MacroTable) (d : Desk) :
    make made d = ((made d.team).mapError .macros, d) := by
  show (match made d.team with
    | .ok macros => pure macros
    | .error error => fail (.macros error) : Deed MacroTable) d = _
  cases made d.team <;> rfl

theorem carryOut_update (kind name : String) (made : Team → Except MacroError MacroTable) :
    carryOut (fun _ => update kind name made) = TeamAction.ofExcept fun files _ t =>
      let (files, result) := t.updateMacros files kind name (made t)
      (files, result.map fun (t, notices) => (t, notices, ())) := by
  funext files now t
  have hpermit := permit_eq { files, team := t }
  have hmake := make_eq made { files, team := t }
  unfold TeamAction.ofExcept Team.updateMacros carryOut update
  beta_reduce
  cases hallow : t.config.macros.allowChanges with
  | false =>
      rw [hallow] at hpermit
      rw [bind_of_error hpermit]
      rfl
  | true =>
      rw [hallow] at hpermit
      rw [bind_of_ok hpermit]
      cases hmade : made t with
      | error error =>
          simp only [hmade] at hmake
          rw [bind_of_error hmake]
          simp only
          rfl
      | ok macros =>
          simp only [hmade] at hmake
          rw [bind_of_ok hmake]
          rcases hsaved : Team.persist files t.config macros with ⟨files', _ | _⟩
          · have hpersist : persist macros { files, team := t } = _ :=
              congrArg (fun saved : Files × Except TeamError Unit => (saved.2, Desk.mk saved.1 t [])) hsaved
            rw [bind_of_error hpersist]
            simp only [hsaved]
            rfl
          · have hpersist : persist macros { files, team := t } = _ :=
              congrArg (fun saved : Files × Except TeamError Unit => (saved.2, Desk.mk saved.1 t [])) hsaved
            rw [bind_of_ok hpersist]
            simp only [hsaved]
            rfl

theorem carryOut_reload : carryOut reload = TeamAction.reloadMacros := by
  funext files now t
  have hread : readFile { files, team := t } =
      (Team.readMacroFile files t.config, { files, team := t }) := rfl
  unfold TeamAction.reloadMacros TeamAction.ofExcept Team.reloadMacros carryOut reload
  rcases hresult : Team.readMacroFile files t.config with error | _ | file
  · rw [hresult] at hread
    rw [bind_of_error hread]
    simp only [hresult]
    rfl
  · rw [hresult] at hread
    rw [bind_of_ok hread]
    simp only [hresult]
    rfl
  · rw [hresult] at hread
    rw [bind_of_ok hread]
    simp only [hresult]
    rfl

theorem carryOut_reset : carryOut reset = TeamAction.reset := by
  funext files now t
  have hread : readFile { files, team := t } =
      (Team.readMacroFile files t.config, { files, team := t }) := rfl
  unfold TeamAction.reset TeamAction.ofExcept Team.reset carryOut reset
  rcases hresult : Team.readMacroFile files t.config with error | file
  · rw [hresult] at hread
    rw [bind_of_error hread]
    simp only [hresult]
    rfl
  · rw [hresult] at hread
    rw [bind_of_ok hread]
    simp only [hresult]
    rfl

end

end Deed

/-! ### What is there behind a failure -/

/-- An action whose result does not matter, but for whether it failed. -/
def TeamAction.mute {α : Type} (action : TeamAction (Except TeamError α)) :
    TeamAction (Except TeamError Unit) := fun files now t =>
  let (files, t, notices, result) := action files now t
  (files, t, notices, result.map fun _ => ())

/-- What can be asked of a team that may fail. -/
inductive MacroCall where
  | add (name body : String)
  | change (name body : String)
  | remove (name : String)
  | reload
  | reset

namespace MacroCall

/-- What runs when a call is made. -/
def action : MacroCall → TeamAction (Except TeamError Unit)
  | .add name body => .addMacro name body
  | .change name body => .changeMacro name body
  | .remove name => .removeMacro name
  | .reload => TeamAction.reloadMacros.mute
  | .reset => .reset

/-- A call, step by step. -/
def deed (now : Time) : MacroCall → Deed Unit
  | .add name body =>
    .update "macro.added" name fun t => t.compileMacro name body >>= t.macros.add
  | .change name body =>
    .update "macro.changed" name fun t =>
      t.compileMacro name body >>= fun m => (t.macros.change m).map (·.1)
  | .remove name => .update "macro.removed" name fun t => (t.macros.remove name).map (·.1)
  | .reload => do
    let _ ← Deed.reload now
    return ()
  | .reset => .reset now

variable {call : MacroCall} {files : Files} {now : Time} {t : Team} {error : TeamError}

theorem carryOut_deed (call : MacroCall) : Deed.carryOut (fun now => call.deed now) = call.action := by
  cases call with
  | add name body => exact Deed.carryOut_update ..
  | change name body => exact Deed.carryOut_update ..
  | remove name => exact Deed.carryOut_update ..
  | reset => exact Deed.carryOut_reset
  | reload =>
      have hdeed : ∀ now, deed now reload = (Deed.reload now >>= fun _ => pure ()) := fun _ => rfl
      show _ = TeamAction.reloadMacros.mute
      rw [← Deed.carryOut_reload]
      funext files now t
      unfold TeamAction.mute Deed.carryOut
      beta_reduce
      rw [hdeed]
      rcases hdone : Deed.reload now { files, team := t } with ⟨_ | _, d⟩
      · rw [Deed.bind_of_error hdone]
        rfl
      · rw [Deed.bind_of_ok hdone]
        rfl

end MacroCall

namespace TeamAction

variable {files : Files} {now : Time} {t : Team} {error : TeamError}

theorem ofExcept_of_error {α : Type}
    {action : Files → Time → Team → Files × Except TeamError (Team × List Notice × α)}
    (h : (ofExcept action files now t).2.2.2 = .error error) : ∃ files',
      action files now t = (files', .error error) ∧
        ofExcept action files now t = (files', t, [], .error error) := by
  unfold ofExcept at h ⊢
  split at h
  · cases h
  · rename_i files' fault hfailed
    cases h
    exact ⟨files', hfailed, rfl⟩

/-- A change of macros that fails leaves the team, and what the path of its macro file leads to. -/
theorem leaves_of_updateMacros {kind name : String} {made : Except MacroError MacroTable}
    {files' : Files} (h : t.updateMacros files kind name made = (files', .error error)) {path : String}
    (hfile : t.config.macros.file = some path) (hsturdy : files.Sturdy path) :
    Files.Leaves path files files' := by
  rcases Team.updateMacros_eq_error h with rfl | ⟨macros, -, hrefused⟩
  · exact .refl path files'
  · cases hpersistent : t.config.macros.persistent with
    | false =>
        rw [Team.persist, hfile, hpersistent] at hrefused
        cases hrefused
    | true =>
        obtain ⟨saved, hsave, hresult⟩ := Team.exists_save_of_persist hfile hpersistent hrefused
        cases saved with
        | ok done => cases hresult
        | error fault => exact MacroFile.leaves_save hsturdy hsave

/-- Whether an action that fails leaves the team, and what the path of its macro file leads to. -/
def FailsClean {α : Type} (action : TeamAction (Except TeamError α)) : Prop :=
  ∀ (files : Files) (now : Time) (t : Team) (error : TeamError),
    (action files now t).2.2.2 = .error error →
      ∃ files', action files now t = (files', t, [], .error error) ∧
        ∀ path, t.config.macros.file = some path → files.Sturdy path → Files.Leaves path files files'

theorem failsClean_updateMacros (kind name : String) (made : Team → Except MacroError MacroTable) :
    (ofExcept fun files _ t =>
      let (files, result) := t.updateMacros files kind name (made t)
      (files, result.map fun (t, notices) => (t, notices, ()))).FailsClean := by
  intro files now t error hfails
  obtain ⟨files', haction, heq⟩ := ofExcept_of_error hfails
  refine ⟨files', heq, fun path hfile hsturdy => ?_⟩
  rcases hupdate : t.updateMacros files kind name (made t) with ⟨left, _ | _⟩
  · simp only [hupdate] at haction
    cases haction
    exact leaves_of_updateMacros hupdate hfile hsturdy
  · simp only [hupdate] at haction
    cases haction

theorem failsClean_of_read {α : Type}
    (change : Files → Time → Team → Except TeamError (Team × List Notice × α)) :
    (ofExcept fun files now t => (files, change files now t)).FailsClean := by
  intro files now t error hfails
  obtain ⟨files', haction, heq⟩ := ofExcept_of_error hfails
  cases congrArg Prod.fst haction
  exact ⟨files, heq, fun path _ _ => .refl path files⟩

theorem FailsClean.mute {α : Type} {action : TeamAction (Except TeamError α)}
    (h : action.FailsClean) : action.mute.FailsClean := by
  intro files now t error hfails
  have hfailed : (action files now t).2.2.2 = .error error := by
    unfold TeamAction.mute at hfails
    cases hresult : (action files now t).2.2.2 with
    | error fault =>
        simp only [hresult] at hfails
        cases hfails
        rfl
    | ok a =>
        simp only [hresult] at hfails
        cases hfails
  obtain ⟨files', haction, hleaves⟩ := h files now t error hfailed
  refine ⟨files', ?_, hleaves⟩
  unfold TeamAction.mute
  rw [haction]
  rfl

end TeamAction

namespace MacroCall

variable {files : Files} {now : Time} {t : Team} {error : TeamError}

theorem failsClean (call : MacroCall) : call.action.FailsClean := by
  cases call with
  | add name body =>
      exact TeamAction.failsClean_updateMacros "macro.added" name
        fun t => t.compileMacro name body >>= t.macros.add
  | change name body =>
      exact TeamAction.failsClean_updateMacros "macro.changed" name
        fun t => t.compileMacro name body >>= fun m => (t.macros.change m).map Prod.fst
  | remove name =>
      exact TeamAction.failsClean_updateMacros "macro.removed" name
        fun t => (t.macros.remove name).map Prod.fst
  | reset => exact TeamAction.failsClean_of_read _
  | reload =>
      exact TeamAction.FailsClean.mute
        (TeamAction.failsClean_of_read fun files now t => t.reloadMacros files now)

/-- **Failed operations change nothing.** Where a change of macros, a reload or a reset fails, whatever
the reason and however far it got, the team is what it was, with its macros, counters, records, batches
and recent messages, and nobody is told anything. The path of the macro file leads to what it led to,
provided that it does not climb out of a folder that is not there. -/
theorem failed_call_changes_nothing {call : MacroCall}
    (hfails : (call.action files now t).2.2.2 = .error error)
    (hsturdy : ∀ path, t.config.macros.file = some path → files.Sturdy path) :
    ∃ files', call.action files now t = (files', t, [], .error error) ∧
      call.deed now { files, team := t } = (.error error, { files := files', team := t }) ∧
      ∀ path, t.config.macros.file = some path → files'.at? path = files.at? path := by
  obtain ⟨files', haction, hleaves⟩ := failsClean call files now t error hfails
  refine ⟨files', haction, ?_, fun path hfile => (hleaves path hfile (hsturdy path hfile)).same⟩
  rw [← carryOut_deed] at haction
  unfold Deed.carryOut at haction
  simp only at haction
  rcases hdone : call.deed now { files, team := t } with ⟨result, d⟩
  rw [hdone] at haction
  cases d
  cases haction
  rfl

/-- A macro is not added where the folder of the macro file cannot be made. -/
theorem failed_add_behind_file :
    ((add "hop" "jump 100").action { entries := [(["pads"], .file "")] } 0
      (Station.keeping "pads/red.json" {}).team).2.1 = (Station.keeping "pads/red.json" {}).team := by
  have hfails : ((add "hop" "jump 100").action { entries := [(["pads"], .file "")] } 0
      (Station.keeping "pads/red.json" {}).team).2.2.2 =
        .error (.storage (.create "pads" .exists)) := by decide +kernel
  have hsturdy : ∀ path, (Station.keeping "pads/red.json" {}).team.config.macros.file = some path →
      Files.Sturdy { entries := [(["pads"], .file "")] } path := by
    intro path hpath
    cases hpath
    exact ⟨Files.isTree_of_entries rfl (by decide), by decide⟩
  obtain ⟨files', haction, -, -⟩ := failed_call_changes_nothing hfails hsturdy
  rw [haction]

/-- A path that climbs out of a missing folder led nowhere, and leads to somebody else's file once the
folder was made for a macro that then could not be written. -/
theorem failed_add_opens_path :
    Station.climbing.team.Reachable ∧ Station.climbing.host.files.IsTree ∧
      Station.climbing.team.config.macros.file = some "x/../m.json" ∧
      ((add "dash" "right 200").action Station.climbing.host.files 0 Station.climbing.team).2.2.2 =
        .error (.storage (.write "x/../m.json.tmp" .isAFolder)) ∧
      Station.climbing.host.files.at? "x/../m.json" = none ∧
      ((add "dash" "right 200").action Station.climbing.host.files 0 Station.climbing.team).1.at?
        "x/../m.json" ≠ none := by
  have hbuild : Declarations.build { profile := "", verbs := MacroTable.jumpAndRight.verbs } =
      .ok MacroTable.jumpAndRight := rfl
  have hstart : Team.start Station.climbing.host.files 0 0 Station.climbing.team.config
      MacroTable.jumpAndRight = .ok (Station.climbing.team, _) := rfl
  exact ⟨.start hbuild hstart, Files.isTree_of_entries (by decide) (by decide), rfl,
    by decide +kernel, by decide +kernel, by decide +kernel⟩

end MacroCall

end CrowdPad
