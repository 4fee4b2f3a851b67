import CrowdPad.Proofs.Macro.File
import CrowdPad.Proofs.Team.Reachable

/-! Macros in memory and on file. As long as nobody else writes the macro file of a team, and its path
does not climb out of a folder that is not there, the macros of the team are those that the file makes,
whatever is done to the team and whichever writes fail. -/

namespace CrowdPad

namespace Team

variable {config : TeamConfig} {verbs : VerbTable} {path : String} {files files' : Files} {t t' : Team}
  {macros : MacroTable} {σ : TeamStep}

/-- Whether a team has these settings and verbs, and the macros that its file makes. -/
structure Agrees (config : TeamConfig) (verbs : VerbTable) (path : String) (files : Files) (t : Team) :
    Prop where
  macros : ∃ file, MacroFile.load files path = .ok file ∧
    t.macros = (MacroTable.ofSteps verbs config.macros.limits file.macros).1
  sturdy : files.Sturdy path
  sameConfig : t.config = config
  sameVerbs : t.verbs = verbs

theorem Agrees.leaves (h : Agrees config verbs path files t)
    (hleaves : Files.Leaves path files files') : Agrees config verbs path files' t := by
  refine ⟨?_, hleaves.sturdy h.sturdy, h.sameConfig, h.sameVerbs⟩
  rw [MacroFile.load_congr hleaves.same]
  exact h.macros

theorem exists_load_of_read (hfile : config.macros.file = some path) {file : Option MacroFile}
    (h : readMacroFile files config = .ok file) :
    ∃ found, MacroFile.load files path = .ok found ∧ file = some found := by
  unfold readMacroFile at h
  rw [hfile] at h
  simp only at h
  split at h
  · rename_i found hload
    cases h
    exact ⟨found, hload, rfl⟩
  · cases h

section

variable (hfile : config.macros.file = some path) (hpersistent : config.macros.persistent = true)

include hfile hpersistent

theorem exists_save_of_persist {result : Except TeamError Unit}
    (h : persist files config macros = (files', result)) : ∃ saved,
      MacroFile.save files path { name := config.name, macros := macros.toSteps } = (files', saved) ∧
        saved.mapError .storage = result := by
  unfold persist at h
  rw [hfile, hpersistent] at h
  cases h
  exact ⟨_, rfl, rfl⟩

/-- Macros that were kept are those that the file makes. -/
theorem agrees_of_persist (htree : files.IsTree)
    (hmade : macros.Made verbs config.macros.limits)
    (h : persist files config macros = (files', .ok ())) (hmacros : t.macros = macros)
    (hconfig : t.config = config) (hverbs : t.verbs = verbs) : Agrees config verbs path files' t := by
  obtain ⟨saved, hsave, hresult⟩ := exists_save_of_persist hfile hpersistent h
  cases saved with
  | error fault => cases hresult
  | ok done =>
      refine ⟨⟨_, MacroFile.load_of_save htree hmade.nodup_toSteps hsave, ?_⟩,
        (MacroFile.save_eq_ok htree hsave).1, hconfig, hverbs⟩
      rw [hmacros, hmade.ofSteps_toSteps]

/-- Whatever an operation does to the macros, it does to the file as well. -/
theorem Agrees.edited (h : Agrees config verbs path files t) (hsound : t.Sound)
    (hedited : t.Edited σ files files' t')
    (hrestored : ∀ stored, σ = .restore stored →
      (persist files t.config (t.changed (.load stored))).2 = .ok ()) :
    Agrees config verbs path files' t' := by
  obtain rfl := h.sameConfig
  obtain rfl := h.sameVerbs
  have hmade : ∀ change, (t.changed change).Made t.verbs t.config.macros.limits :=
    hsound.macros.apply hsound.distinct
  have hedit := hedited.edit
  generalize ht' : t'.macros = macros at hedit
  cases hedit with
  | kept =>
      exact ⟨ht' ▸ h.macros, h.sturdy, hedited.config, hedited.verbs⟩
  | saved change hsaved =>
      exact agrees_of_persist hfile hpersistent h.sturdy.tree (hmade change) hsaved ht' hedited.config
        hedited.verbs
  | refused change hrefused =>
      -- The team keeps its macros. The files may have got folders and a staged file, which the path
      -- does not lead to.
      obtain ⟨saved, hsave, hresult⟩ := exists_save_of_persist hfile hpersistent hrefused
      have hkept : Agrees t.config t.verbs path files t' :=
        ⟨ht' ▸ h.macros, h.sturdy, hedited.config, hedited.verbs⟩
      cases saved with
      | ok done => cases hresult
      | error fault => exact hkept.leaves (MacroFile.leaves_save h.sturdy hsave)
  | @loaded file hread =>
      obtain ⟨found, hload, rfl⟩ := exists_load_of_read hfile hread
      exact ⟨⟨found, hload, ht'⟩, h.sturdy, hedited.config, hedited.verbs⟩
  | restored stored hσ =>
      refine agrees_of_persist hfile hpersistent h.sturdy.tree (hmade _) ?_ ht' hedited.config hedited.verbs
      exact Prod.ext rfl (hrestored stored hσ)

end

end Team

namespace Station

/-- Whether, throughout a run, nobody else changes what the path of the macro file leads to or makes it
climb, and every restoring keeps what it restores. -/
def Tended (path : String) : Station → List TeamStep → Prop
  | _, [] => True
  | s, σ :: rest =>
    Files.Leaves path (s.filesBehind σ) (s.step σ).host.files ∧
      (∀ stored, σ = .restore stored →
        (Team.persist s.host.files s.team.config (s.team.changed (.load stored))).2 = .ok ()) ∧
      Tended path (s.step σ) rest

variable {config : TeamConfig} {verbs : VerbTable} {path : String} {s : Station}

theorem agrees_run (hfile : config.macros.file = some path)
    (hpersistent : config.macros.persistent = true) {steps : List TeamStep} (hsound : s.team.Sound)
    (hagrees : Team.Agrees config verbs path s.host.files s.team) (htended : s.Tended path steps) :
    Team.Agrees config verbs path (s.run steps).host.files (s.run steps).team := by
  induction steps generalizing s with
  | nil => exact hagrees
  | cons σ rest ih =>
      -- A step is an edit by the team and then what others do to the files.
      obtain ⟨hleaves, hrestored, hrest⟩ := htended
      have hedited := s.edited_step σ
      have hstep := hagrees.edited hfile hpersistent hsound hedited hrestored
      exact ih (hsound.edited hedited) (hstep.leaves hleaves) hrest

/-! ### Alone on a host -/

/-- Whether a team has no log, and nothing waits to be published. -/
structure Alone (s : Station) : Prop where
  telemetry : s.member.telemetry = none
  outbox : s.host.outbox = []

theorem Alone.notifyAll (h : s.Alone) (host : Host) (notices : List Notice) :
    host.notifyAll s.member.telemetry notices = host := by
  rw [h.telemetry]
  rfl

theorem Alone.perform {α : Type} (h : s.Alone) (action : TeamAction α) :
    (s.perform action).Alone ∧
      (s.perform action).host.files = (action s.host.files s.host.now s.team).1 := by
  have hhost : (s.perform action).host =
      { s.host with files := (action s.host.files s.host.now s.team).1 } := h.notifyAll _ _
  exact ⟨⟨h.telemetry, by rw [hhost]; exact h.outbox⟩, by rw [hhost]⟩

theorem Alone.change (h : s.Alone) (f : Team → Team × List Notice) :
    (s.change f).Alone ∧ (s.change f).host.files = s.host.files :=
  h.perform fun files _ t => (files, (f t).1, (f t).2, ())

theorem Alone.work (h : s.Alone) : s.work.Alone ∧ s.work.host.files = s.host.files := by
  have hhost : s.work.host =
      { s.host with device := (s.team.work s.host.now s.host.network s.host.device).2.1 } :=
    h.notifyAll _ _
  exact ⟨⟨h.telemetry, by rw [hhost]; exact h.outbox⟩, by rw [hhost]⟩

theorem Alone.settle (h : s.Alone) (now : Time) :
    (s.settle now).Alone ∧ (s.settle now).host.files = s.host.files := by
  have hhost : (s.settle now).host =
      { s.host with
        now, device := (s.team.settle now s.host.network s.host.device).2.1 : Host }.flush :=
    congrArg Host.flush (h.notifyAll _ _)
  refine ⟨⟨h.telemetry, by rw [hhost]; rfl⟩, ?_⟩
  rw [hhost, Host.flush, h.outbox]
  rfl

/-- Nothing but what the team does reaches the files. -/
theorem Alone.step (h : s.Alone) {σ : TeamStep} (hσ : ∀ files, σ ≠ .changeFiles files) :
    (s.step σ).Alone ∧ (s.step σ).host.files = s.filesBehind σ := by
  have hsettle : ∀ now (s' : Station), s'.Alone ∧ s'.host.files = s.host.files →
      (s'.settle now).Alone ∧ (s'.settle now).host.files = s.host.files := by
    intro now s' hs'
    exact ⟨(hs'.1.settle now).1, (hs'.1.settle now).2.trans hs'.2⟩
  cases σ with
  | message author text shift => exact h.perform (.message author text shift)
  | cancelAll => exact h.perform .cancelAll
  | cancelBatch batch => exact h.perform (.cancelBatch batch)
  | reset => exact h.perform .reset
  | injectRandom => exact h.perform .injectRandom
  | setRandom on => exact h.perform (.setRandom on)
  | reseed seed => exact h.change fun t => ({ t with seed }, [])
  | addMacro name body => exact h.perform (.addMacro name body)
  | changeMacro name body => exact h.perform (.changeMacro name body)
  | removeMacro name => exact h.perform (.removeMacro name)
  | reloadMacros => exact h.perform .reloadMacros
  | restore stored => exact h.perform (.restore stored)
  | changeFiles files => exact absurd rfl (hσ files)
  | fire => exact h.change fun t => t.fire s.host.now
  | tickRandom => exact h.change fun t => t.tickRandom s.host.now
  | work => exact h.work
  | retire => exact h.change fun t => ({ t with playback := t.playback.retire.1 }, [])
  | wait ms =>
      let later := (Clock.wait Station.settle nextDue? (fun _ => false) (s.host.now + ms) s.host.now s).2
      have hlater : later.Alone ∧ later.host.files = s.host.files :=
        Clock.wait_keeps hsettle _ _ _ ⟨h, rfl⟩
      exact ⟨⟨hlater.1.telemetry, hlater.1.outbox⟩, hlater.2⟩
  | advance ms => exact Clock.advance_keeps hsettle _ _ ⟨h, rfl⟩

/-- A team alone on its host, whose files nobody else changes, tends its macro file. -/
theorem Alone.tended (h : s.Alone) (path : String) {steps : List TeamStep}
    (hfiles : ∀ files, .changeFiles files ∉ steps) (hrestore : ∀ stored, .restore stored ∉ steps) :
    s.Tended path steps := by
  induction steps generalizing s with
  | nil => trivial
  | cons σ rest ih =>
      obtain ⟨halone, hbehind⟩ := h.step fun files hσ => hfiles files (hσ ▸ List.mem_cons_self ..)
      refine ⟨hbehind ▸ .refl path _, ?_, ?_⟩
      · rintro stored rfl
        exact absurd (List.mem_cons_self ..) (hrestore stored)
      · exact ih halone (fun files hmem => hfiles files (List.mem_cons_of_mem _ hmem))
          fun stored hmem => hrestore stored (List.mem_cons_of_mem _ hmem)

/-- **Memory and file.** Whatever is done to a team that keeps its macros in a file, whichever writes
fail, and however often the macros are loaded again, its macros are those that the file makes, with a
missing file for an empty one. Nobody else writes the file, no restoring fails to be kept, and the path
of the file does not climb out of a folder that is not there. -/
theorem macros_eq_file {d : Declarations} (hbuild : d.build = .ok verbs) {host : Host} {seed : Nat}
    {telemetry : Option Telemetry} (hstart : start host seed config verbs telemetry = .ok s)
    (hfile : config.macros.file = some path) (hpersistent : config.macros.persistent = true)
    (hsturdy : host.files.Sturdy path) (hkept : Files.Leaves path host.files s.host.files)
    {steps : List TeamStep} (htended : s.Tended path steps) :
    ∃ file, MacroFile.load (s.run steps).host.files path = .ok file ∧
      (s.run steps).team.macros = (MacroTable.ofSteps verbs config.macros.limits file.macros).1 := by
  obtain ⟨⟨host', member⟩, hmember, hs⟩ := exists_of_bind_eq_ok hstart
  obtain ⟨⟨team, notices⟩, hteam, hmember⟩ := exists_of_bind_eq_ok hmember
  cases hmember
  cases hs
  have hsound := (Team.Reachable.start hbuild hteam).sound
  obtain ⟨hconfig, hverbs, -, file, hread, hmacros⟩ := Team.start_eq_ok hteam
  obtain ⟨found, hload, rfl⟩ := Team.exists_load_of_read hfile hread
  have hagrees : Team.Agrees config verbs path host.files team :=
    ⟨⟨found, hload, hmacros⟩, hsturdy, hconfig, hverbs⟩
  exact (agrees_run (s := { host := host.notifyAll telemetry notices, member := { team, telemetry } })
    hfile hpersistent hsound (hagrees.leaves hkept) htended).macros

/-- A team of two verbs that keeps its macros in a file. -/
def keeping (path : String) (files : Files) : Station where
  host := { files }
  member := { team := {
    config := {
      name := "red", target := {}
      macros := { allowChanges := true, file := some path, persistent := true } }
    verbs := MacroTable.jumpAndRight
    playback := { worker := .here { target := {} } }
    dropped := .ofCapacity 32
    failures := .ofCapacity 32 } }

/-- A macro that is added comes into the file, in a folder that is made for it. -/
theorem macros_eq_file_of_hop : ∃ file,
    MacroFile.load ((keeping "pads/red.json" {}).run
      [.addMacro "Hop" "jump 100 right 200+300", .removeMacro "leap"]).host.files "pads/red.json" =
        .ok file ∧
      (MacroTable.ofSteps MacroTable.jumpAndRight {} file.macros).1.names = ["hop"] := by
  have hbuild : Declarations.build { profile := "", verbs := MacroTable.jumpAndRight.verbs } =
      .ok MacroTable.jumpAndRight := rfl
  have hstart : start (keeping "pads/red.json" {}).host 0 (keeping "pads/red.json" {}).team.config
      MacroTable.jumpAndRight none = .ok (keeping "pads/red.json" {}) := rfl
  have hsturdy : ({} : Files).Sturdy "pads/red.json" :=
    ⟨Files.isTree_of_entries rfl nofun, by decide⟩
  have htended : (keeping "pads/red.json" {}).Tended "pads/red.json"
      [.addMacro "Hop" "jump 100 right 200+300", .removeMacro "leap"] :=
    Alone.tended ⟨rfl, rfl⟩ _ (by simp) (by simp)
  have hnames : ((keeping "pads/red.json" {}).run
      [.addMacro "Hop" "jump 100 right 200+300", .removeMacro "leap"]).team.macros.names =
        ["hop"] := by decide +kernel
  obtain ⟨file, hload, hmacros⟩ := macros_eq_file hbuild hstart rfl rfl hsturdy (.refl _ _) htended
  exact ⟨file, hload, hmacros ▸ hnames⟩

/-- A team whose file is behind a folder that is not there and the way back out of it, with somebody
else's file there, and with a folder where the file would be written first. -/
def climbing : Station := keeping "x/../m.json" { entries := [
  (["m.json"], .file "\x7b\"macros\":\x7b\"hop\":[\x7b\"verb\":\"jump\",\"duration_ms\":50\x7d]\x7d\x7d"),
  (["m.json.tmp"], .folder), (["m.json.tmp", "keep.txt"], .file "")] }

/-- A macro cannot be added, as it cannot be written, but the folder that was made for it opens the way
to a file that the team has not loaded. -/
theorem macros_ne_file_of_climbing :
    start climbing.host 0 climbing.team.config climbing.team.verbs none = .ok climbing ∧
      climbing.host.files.IsTree ∧ climbing.Tended "x/../m.json" [.addMacro "dash" "right 200"] ∧
      ¬∃ file, MacroFile.load (climbing.run [.addMacro "dash" "right 200"]).host.files "x/../m.json" =
          .ok file ∧
        (climbing.run [.addMacro "dash" "right 200"]).team.macros =
          (MacroTable.ofSteps climbing.team.verbs climbing.team.config.macros.limits file.macros).1 := by
  refine ⟨rfl, Files.isTree_of_entries (by decide) (by decide),
    Alone.tended ⟨rfl, rfl⟩ _ (by simp) (by simp), ?_⟩
  rintro ⟨file, hload, hmacros⟩
  have hfound : MacroFile.load (climbing.run [.addMacro "dash" "right 200"]).host.files
      "x/../m.json" = .ok { macros := [("hop", [{ verb := "jump", durationMs := 50 }])] } := by
    decide +kernel
  have hnone : (climbing.run [.addMacro "dash" "right 200"]).team.macros = {} := by decide +kernel
  rw [hfound] at hload
  cases hload
  rw [hnone] at hmacros
  exact absurd hmacros (by decide +kernel)

end Station

end CrowdPad
