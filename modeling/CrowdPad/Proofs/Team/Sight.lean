import CrowdPad.Proofs.Macro.Neighbours
import CrowdPad.Proofs.Team.Failure

/-! What a team depends on. Of the files a team sees no more than the standing of its macro file, and of
the device no more than the keys that it refuses; whatever is done to a team comes to the same wherever
these are the same. Of the files a team writes no more than its macro file. -/

namespace CrowdPad

/-! ### Files -/

/-- Whether the path of the macro file, if there is one, ends in the name of a file. -/
def TeamConfig.Named (config : TeamConfig) : Prop :=
  ∀ path, config.macros.file = some path → (Path.fileName? path).isSome

/-- Whether two trees of files are the same to a team. -/
def TeamConfig.Sees (config : TeamConfig) (fs fs' : Files) : Prop :=
  ∀ path, config.macros.file = some path → fs.Sturdy path ∧ fs'.Sturdy path ∧
    MacroFile.standing path fs' = MacroFile.standing path fs

variable {config : TeamConfig} {fs fs' : Files}

theorem TeamConfig.Sees.read (h : config.Sees fs fs') :
    Team.readMacroFile fs' config = Team.readMacroFile fs config := by
  unfold Team.readMacroFile
  cases hfile : config.macros.file with
  | none => rfl
  | some path => simp only [MacroFile.load_alike (h path hfile).2.2]

/-- Macros are kept, or fail to be kept, alike. -/
theorem TeamConfig.Sees.persist (h : config.Sees fs fs') (hnamed : config.Named) (macros : MacroTable) :
    (Team.persist fs' config macros).2 = (Team.persist fs config macros).2 ∧
      config.Sees (Team.persist fs config macros).1 (Team.persist fs' config macros).1 := by
  unfold Team.persist
  split
  · rename_i path hfile hpersistent
    obtain ⟨hsturdy, hsturdy', hsame⟩ := h path hfile
    obtain ⟨hresult, hend, hkept, hkept'⟩ := MacroFile.save_alike (hnamed path hfile) hsturdy hsturdy'
      hsame { name := config.name, macros := macros.toSteps }
    refine ⟨congrArg (Except.mapError TeamError.storage) hresult, fun other hother => ?_⟩
    cases hfile.symm.trans hother
    exact ⟨hkept, hkept', hend⟩
  · exact ⟨rfl, h⟩

/-! ### What others do to files -/

/-- Whether a change of files is nothing to a team. -/
structure TeamConfig.Spared (config : TeamConfig) (fs fs' : Files) : Prop where
  home : fs'.home = fs.home
  file : ∀ path, config.macros.file = some path → MacroFile.Spares path fs fs'

/-- Whether a file is written without regard to a team. -/
def TeamConfig.Ignores (config : TeamConfig) (fs : Files) (q : String) : Prop :=
  ∀ path, config.macros.file = some path → MacroFile.Clear fs path q

/-- Whether another team keeps its macros without regard to a team. -/
def TeamConfig.Shuns (config other : TeamConfig) (fs : Files) : Prop :=
  ∀ path q, config.macros.file = some path → other.macros.file = some q →
    other.macros.persistent = true → MacroFile.Apart fs path q

namespace TeamConfig

variable {gs gs' : Files} {other : TeamConfig} {q : String}

theorem Spared.refl (config : TeamConfig) (fs : Files) : config.Spared fs fs :=
  ⟨rfl, fun path _ => .refl path fs⟩

theorem Spared.trans (h : config.Spared fs fs') (h' : config.Spared fs' gs) : config.Spared fs gs :=
  ⟨h'.home.trans h.home, fun path hfile => (h.file path hfile).trans (h'.file path hfile)⟩

theorem Ignores.of_home (h : config.Ignores fs q) (hhome : fs'.home = fs.home) : config.Ignores fs' q :=
  fun path hfile => (h path hfile).of_home hhome

theorem Shuns.of_home (h : config.Shuns other fs) (hhome : fs'.home = fs.home) :
    config.Shuns other fs' :=
  fun path q hfile hother hpersistent => (h path q hfile hother hpersistent).of_home hhome

/-- What is the same to a team stays so under changes that are nothing to it. -/
theorem Sees.spared (h : config.Sees fs fs') (hspared : config.Spared fs gs)
    (hspared' : config.Spared fs' gs') : config.Sees gs gs' := by
  intro path hfile
  obtain ⟨hsturdy, hsturdy', hsame⟩ := h path hfile
  obtain ⟨hkept, hstands⟩ := hspared.file path hfile hsturdy
  obtain ⟨hkept', hstands'⟩ := hspared'.file path hfile hsturdy'
  exact ⟨hkept, hkept', hstands'.trans (hsame.trans hstands.symm)⟩

theorem spared_append (hnamed : config.Named) (hignores : config.Ignores fs q) {content : String}
    (happended : fs.append q content = .ok fs') : config.Spared fs fs' := by
  refine ⟨Files.home_modify happended, fun path hfile => ?_⟩
  obtain ⟨parent, name, beside, hsplit⟩ := MacroFile.exists_split (hnamed path hfile)
  exact MacroFile.spares_modify hsplit (hignores path hfile) happended

theorem home_persist (fs : Files) (config : TeamConfig) (macros : MacroTable) :
    (Team.persist fs config macros).1.home = fs.home := by
  unfold Team.persist
  split
  · exact MacroFile.home_save ..
  · rfl

theorem spared_persist (hnamed : config.Named) (hshuns : config.Shuns other fs) (macros : MacroTable) :
    config.Spared fs (Team.persist fs other macros).1 := by
  refine ⟨home_persist fs other macros, fun path hfile => ?_⟩
  unfold Team.persist
  split
  · rename_i q hother hpersistent
    exact MacroFile.spares_save (hnamed path hfile) (hshuns path q hfile hother hpersistent) _
  · exact .refl path fs

end TeamConfig

/-! ### What is done to a team -/

namespace TeamAction

variable {α : Type}

/-- Whether an action comes to the same for a team wherever the files are the same to it. -/
def Local (action : TeamAction α) : Prop :=
  ∀ (fs fs' : Files) (now : Time) (t : Team), t.config.Named → t.config.Sees fs fs' →
    (action fs' now t).2 = (action fs now t).2 ∧
      t.config.Sees (action fs now t).1 (action fs' now t).1

/-- What has nothing to do with files. -/
theorem local_of_team (f : Time → Team → Team × List Notice × α) :
    Local fun fs now t => (fs, f now t) :=
  fun _ _ _ _ _ h => ⟨rfl, h⟩

theorem local_ofExcept
    {action : Files → Time → Team → Files × Except TeamError (Team × List Notice × α)}
    (haction : ∀ (fs fs' : Files) (now : Time) (t : Team), t.config.Named → t.config.Sees fs fs' →
      (action fs' now t).2 = (action fs now t).2 ∧
        t.config.Sees (action fs now t).1 (action fs' now t).1) : Local (ofExcept action) := by
  intro fs fs' now t hnamed h
  obtain ⟨hresult, hend⟩ := haction fs fs' now t hnamed h
  unfold ofExcept
  rcases hdone : action fs now t with ⟨g, error | ⟨u, notices, a⟩⟩
  · rcases hdone' : action fs' now t with ⟨g', result⟩
    rw [hdone, hdone'] at hresult hend
    cases hresult
    exact ⟨rfl, hend⟩
  · rcases hdone' : action fs' now t with ⟨g', result⟩
    rw [hdone, hdone'] at hresult hend
    cases hresult
    exact ⟨rfl, hend⟩

theorem sees_updateMacros {t : Team} (hnamed : t.config.Named) (h : t.config.Sees fs fs')
    (kind name : String) (changed : Except MacroError MacroTable) :
    (t.updateMacros fs' kind name changed).2 = (t.updateMacros fs kind name changed).2 ∧
      t.config.Sees (t.updateMacros fs kind name changed).1
        (t.updateMacros fs' kind name changed).1 := by
  unfold Team.updateMacros
  split
  · exact ⟨rfl, h⟩
  · cases changed with
    | error error => exact ⟨rfl, h⟩
    | ok macros =>
        obtain ⟨hresult, hend⟩ := h.persist hnamed macros
        rcases hkept : Team.persist fs t.config macros with ⟨g, error | done⟩
        · rcases hkept' : Team.persist fs' t.config macros with ⟨g', result⟩
          rw [hkept, hkept'] at hresult hend
          cases hresult
          simp only [hkept, hkept']
          exact ⟨trivial, hend⟩
        · rcases hkept' : Team.persist fs' t.config macros with ⟨g', result⟩
          rw [hkept, hkept'] at hresult hend
          cases hresult
          simp only [hkept, hkept']
          exact ⟨trivial, hend⟩

theorem local_updateMacros (kind name : String) (made : Team → Except MacroError MacroTable) :
    Local (ofExcept fun fs _ t =>
      let (fs, result) := t.updateMacros fs kind name (made t)
      (fs, result.map fun (t, notices) => (t, notices, ()))) := by
  apply local_ofExcept
  intro fs fs' now t hnamed h
  obtain ⟨hresult, hend⟩ := sees_updateMacros hnamed h kind name (made t)
  exact ⟨congrArg (Except.map _) hresult, hend⟩

theorem local_of_read {change : Files → Time → Team → Except TeamError (Team × List Notice × α)}
    {taken : Time → Team → Option MacroFile → Team × List Notice × α}
    (hchange : ∀ fs now t, change fs now t = (Team.readMacroFile fs t.config).map (taken now t)) :
    Local (ofExcept fun fs now t => (fs, change fs now t)) := by
  apply local_ofExcept
  intro fs fs' now t _ h
  refine ⟨?_, h⟩
  show change fs' now t = change fs now t
  rw [hchange, hchange, h.read]

theorem Local.mute {action : TeamAction (Except TeamError α)} (h : action.Local) :
    action.mute.Local := by
  intro fs fs' now t hnamed hsees
  obtain ⟨hresult, hend⟩ := h fs fs' now t hnamed hsees
  refine ⟨?_, hend⟩
  unfold TeamAction.mute
  exact congrArg (fun done : Team × List Notice × Except TeamError α =>
    (done.1, done.2.1, done.2.2.map fun _ => ())) hresult

theorem local_restore (stored : StoredMacros) : (restore stored).Local := by
  intro fs fs' now t hnamed h
  exact ⟨rfl, (h.persist hnamed _).2⟩

theorem local_call (call : MacroCall) : call.action.Local := by
  cases call with
  | add name body =>
      exact local_updateMacros "macro.added" name fun t => t.compileMacro name body >>= t.macros.add
  | change name body =>
      exact local_updateMacros "macro.changed" name
        fun t => t.compileMacro name body >>= fun m => (t.macros.change m).map Prod.fst
  | remove name =>
      exact local_updateMacros "macro.removed" name fun t => (t.macros.remove name).map Prod.fst
  | reload => exact Local.mute (local_of_read fun fs now t => t.reloadMacros_eq_map fs now)
  | reset =>
      have hread : ∀ fs now (t : Team), (t.reset fs now).map (fun (t, notices) => (t, notices, ())) =
          (Team.readMacroFile fs t.config).map fun file =>
            ((t.takeReset now file).1, (t.takeReset now file).2, ()) := by
        intro fs now t
        rw [Team.reset_eq_map]
        cases Team.readMacroFile fs t.config <;> rfl
      exact local_of_read hread

/-- Whether an action leaves the settings of a team, and writes no more than its macro file. -/
def Tidy (action : TeamAction α) : Prop :=
  ∀ (fs : Files) (now : Time) (t : Team), (action fs now t).2.1.config = t.config ∧
    ((action fs now t).1 = fs ∨ ∃ macros, (action fs now t).1 = (Team.persist fs t.config macros).1)

theorem tidy_of_edits {action : TeamAction α} {σ : TeamStep} (h : action.Edits σ) : action.Tidy := by
  intro fs now t
  obtain ⟨hconfig, -, hedit⟩ := h fs now t
  refine ⟨hconfig, ?_⟩
  generalize (action fs now t).1 = fs' at hedit ⊢
  generalize (action fs now t).2.1.macros = macros at hedit
  cases hedit with
  | kept => exact .inl rfl
  | saved change h => exact .inr ⟨_, (congrArg Prod.fst h).symm⟩
  | refused change h => exact .inr ⟨_, (congrArg Prod.fst h).symm⟩
  | loaded h => exact .inl rfl
  | restored stored h => exact .inr ⟨_, rfl⟩

theorem tidy_of_team (f : Time → Team → Team × List Notice × α)
    (hf : ∀ now t, (f now t).1.config = t.config) : Tidy fun fs now t => (fs, f now t) :=
  fun _ now t => ⟨hf now t, .inl rfl⟩

theorem Tidy.mute {action : TeamAction (Except TeamError α)} (h : action.Tidy) : action.mute.Tidy := h

theorem tidy_call (call : MacroCall) : call.action.Tidy := by
  cases call with
  | add name body => exact tidy_of_edits (σ := .addMacro name body) (edits_addMacro name body)
  | change name body => exact tidy_of_edits (σ := .changeMacro name body) (edits_changeMacro name body)
  | remove name => exact tidy_of_edits (σ := .removeMacro name) (edits_removeMacro name)
  | reload => exact Tidy.mute (tidy_of_edits (σ := .reloadMacros) edits_reloadMacros)
  | reset => exact tidy_of_edits (σ := .reset) edits_reset

theorem tidy_restore (stored : StoredMacros) : (restore stored).Tidy :=
  tidy_of_edits (edits_restore stored)

theorem tidy_message (author text : String) (shift : Time) : (message author text shift).Tidy :=
  tidy_of_team _ fun now t =>
    congrArg (·.1) (t.repertoire_handleMessage now author text (now + shift))

/-- A tidy action of another team is nothing to a team that the other one shuns. -/
theorem Tidy.spared {action : TeamAction α} (h : action.Tidy) (hnamed : config.Named) {t : Team}
    (hshuns : config.Shuns t.config fs) (now : Time) : config.Spared fs (action fs now t).1 := by
  rcases (h fs now t).2 with hsame | ⟨macros, hkept⟩
  · rw [hsame]
    exact .refl config fs
  · rw [hkept]
    exact TeamConfig.spared_persist hnamed hshuns macros

theorem Tidy.home {action : TeamAction α} (h : action.Tidy) (fs : Files) (now : Time) (t : Team) :
    (action fs now t).1.home = fs.home := by
  rcases (h fs now t).2 with hsame | ⟨macros, hkept⟩
  · rw [hsame]
  · rw [hkept]
    exact TeamConfig.home_persist fs t.config macros

end TeamAction

/-! ### What a team does as time passes -/

namespace LocalWorker

/-- A device that refuses the same keys makes no difference to a worker. -/
theorem applyAll_congr (now : Time) (player : Nat) {device device' : Device}
    (h : device'.failing = device.failing) (stats : DispatchStats) (edges : List Edge) :
    (applyAll now player device' stats edges).2 = (applyAll now player device stats edges).2 := by
  induction edges generalizing device device' stats with
  | nil => rfl
  | cons e rest ih =>
      rw [applyAll, applyAll, Device.apply, Device.apply]
      by_cases hfailing : device.failing.contains e.key
      · simp only [h, hfailing, if_true, ih h]
      · simp only [h, hfailing, Bool.false_eq_true, if_false]
        apply ih
        rfl

end LocalWorker

namespace Worker

variable {device device' : Device}

theorem run_congr (w : Worker) (now : Time) (network : Attempt) (h : device'.failing = device.failing) :
    (w.run now network device').1 = (w.run now network device).1 ∧
      (w.run now network device').2.2 = (w.run now network device).2.2 := by
  cases w with
  | remote w => exact ⟨rfl, rfl⟩
  | here w =>
      have hsame := LocalWorker.applyAll_congr now w.target.player h w.stats w.queue
      simp only [run, LocalWorker.run, hsame]
      exact ⟨trivial, trivial⟩

theorem run_failing (w : Worker) (now : Time) (network : Attempt) (device : Device) :
    (w.run now network device).2.1.failing = device.failing := by
  cases w with
  | here w => exact w.run_failing now
  | remote w => rfl

end Worker

namespace Team

variable {device device' : Device} (t : Team) (now : Time) (network : Attempt)

theorem settle_config (device : Device) : (t.settle now network device).1.config = t.config :=
  congrArg (·.1) (t.repertoire_settle now network device)

theorem settle_failing (device : Device) :
    (t.settle now network device).2.1.failing = device.failing :=
  Worker.run_failing _ now network device

theorem settle_congr (h : device'.failing = device.failing) :
    (t.settle now network device').1 = (t.settle now network device).1 := by
  obtain ⟨hworker, hfailures⟩ :=
    (((t.fire now).1.tickRandom now).1.fire now).1.playback.worker.run_congr now network h
  simp only [settle, work, Playback.work, hworker, hfailures]

end Team

end CrowdPad
