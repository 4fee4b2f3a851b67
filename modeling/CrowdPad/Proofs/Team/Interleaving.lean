import CrowdPad.Proofs.Team.Failure

/-! Calls that overlap. A reload and a reset read the macro file first and replace the macros later,
with anything in between, while a change of macros is made, kept and taken over in one go. A macro that
was added or changed stays in memory and in the file until it is changed or removed, macros are restored,
or somebody else writes the file. Only the second half of a call that had read the file before undoes
more than that: it brings the older macros back, and the next change of macros writes them. -/

namespace CrowdPad

/-! ### A macro that is kept -/

namespace MacroFile

variable {verbs : VerbTable} {limits : MacroLimits} {m : Macro} {file : MacroFile}

/-- Whether a file holds the macros of a table, and among them this one. -/
def Holds (verbs : VerbTable) (limits : MacroLimits) (m : Macro) (file : MacroFile) : Prop :=
  ∃ table : MacroTable, table.Made verbs limits ∧ table.entries.lookup m.name = some m ∧
    file.macros = table.toSteps

theorem Holds.lookup (h : file.Holds verbs limits m) : file.macros.lookup m.name = some m.steps := by
  obtain ⟨table, -, hfound, hsteps⟩ := h
  rw [hsteps, MacroTable.lookup_toSteps, hfound, Option.map_some]

/-- The table that a file makes has the macros that it was written with. -/
theorem Holds.ofSteps (h : file.Holds verbs limits m) :
    (MacroTable.ofSteps verbs limits file.macros).1.Made verbs limits ∧
      (MacroTable.ofSteps verbs limits file.macros).1.entries.lookup m.name = some m := by
  obtain ⟨table, hmade, hfound, hsteps⟩ := h
  rw [hsteps, hmade.ofSteps_toSteps]
  exact ⟨hmade, hfound⟩

end MacroFile

namespace Team

variable {path : String} {m : Macro} {files files' : Files} {t t' : Team} {now : Time}

/-- Whether a team that keeps its macros has this one, in memory and in its file. -/
structure Keeps (path : String) (m : Macro) (files : Files) (t : Team) : Prop where
  sound : t.Sound
  file : t.config.macros.file = some path
  persistent : t.config.macros.persistent = true
  sturdy : files.Sturdy path
  memory : t.macros.entries.lookup m.name = some m
  stored : ∃ file, MacroFile.load files path = .ok file ∧
    file.Holds t.verbs t.config.macros.limits m

theorem Keeps.leaves (h : t.Keeps path m files) (hleaves : Files.Leaves path files files') :
    t.Keeps path m files' := by
  refine { h with sturdy := hleaves.sturdy h.sturdy, stored := ?_ }
  rw [MacroFile.load_congr hleaves.same]
  exact h.stored

/-- Other macros in memory, of which this one is one. -/
theorem Keeps.withMacros (h : t.Keeps path m files) {macros : MacroTable}
    (hmade : macros.Made t.verbs t.config.macros.limits)
    (hfound : macros.entries.lookup m.name = some m) (hconfig : t'.config = t.config)
    (hverbs : t'.verbs = t.verbs) (hmacros : t'.macros = macros) : t'.Keeps path m files := by
  obtain ⟨⟨hdistinct, haccepted, -⟩, hfile, hpersistent, hsturdy, -, hstored⟩ := h
  refine ⟨⟨?_, ?_, ?_⟩, ?_, ?_, hsturdy, ?_, ?_⟩ <;> simpa only [hconfig, hverbs, hmacros]

theorem Keeps.of_repertoire (h : t.Keeps path m files) (hsame : t'.repertoire = t.repertoire) :
    t'.Keeps path m files :=
  h.withMacros h.sound.macros h.memory (congrArg (·.1) hsame) (congrArg (·.2.1) hsame)
    (congrArg (·.2.2) hsame)

/-- Macros that were written are in memory and in the file. -/
theorem keeps_of_persist (hsound : t.Sound) (hfile : t.config.macros.file = some path)
    (hpersistent : t.config.macros.persistent = true) (htree : files.IsTree) {macros : MacroTable}
    (hmade : macros.Made t.verbs t.config.macros.limits)
    (hfound : macros.entries.lookup m.name = some m)
    (h : persist files t.config macros = (files', .ok ())) :
    Keeps path m files' { t with macros } := by
  obtain ⟨saved, hsave, hresult⟩ := exists_save_of_persist hfile hpersistent h
  cases saved with
  | error fault => cases hresult
  | ok done =>
      exact ⟨⟨hsound.distinct, hsound.accepted, hmade⟩, hfile, hpersistent,
        (MacroFile.save_eq_ok htree hsave).1, hfound, _,
        MacroFile.load_of_save htree hmade.nodup_toSteps hsave, macros, hmade, hfound, rfl⟩

/-- What is read is what is in the file. -/
theorem Keeps.holds_of_read (h : t.Keeps path m files) {read : Option MacroFile}
    (hread : readMacroFile files t.config = .ok read) :
    ∃ file, read = some file ∧ file.Holds t.verbs t.config.macros.limits m := by
  obtain ⟨found, hload, rfl⟩ := exists_load_of_read h.file hread
  obtain ⟨file, hstored, hholds⟩ := h.stored
  rw [hload] at hstored
  cases hstored
  exact ⟨found, rfl, hholds⟩

variable {file : MacroFile}

theorem Keeps.takeMacroFile (h : t.Keeps path m files)
    (hholds : file.Holds t.verbs t.config.macros.limits m) :
    (t.takeMacroFile now (some file)).1.Keeps path m files :=
  h.withMacros hholds.ofSteps.1 hholds.ofSteps.2 rfl rfl rfl

theorem Keeps.takeReset (h : t.Keeps path m files)
    (hholds : file.Holds t.verbs t.config.macros.limits m) :
    (t.takeReset now (some file)).1.Keeps path m files :=
  h.withMacros hholds.ofSteps.1 hholds.ofSteps.2 rfl rfl rfl

end Team

namespace TeamAction

variable {path : String} {m : Macro} {files : Files} {t : Team} {now : Time}

/-- A change of macros keeps a macro that is among the changed ones. -/
theorem keeps_of_updateMacros (h : t.Keeps path m files) (kind name : String)
    (made : Team → Except MacroError MacroTable)
    (hmade : ∀ macros, made t = .ok macros →
      macros.Made t.verbs t.config.macros.limits ∧ macros.entries.lookup m.name = some m) :
    let done := (ofExcept fun files _ t =>
      let (files, result) := t.updateMacros files kind name (made t)
      (files, result.map fun (t, notices) => (t, notices, ()))) files now t
    done.2.1.Keeps path m done.1 := by
  simp only [ofExcept]
  rcases hupdate : t.updateMacros files kind name (made t) with ⟨files', error | ⟨t', notices⟩⟩
  · exact h.leaves (leaves_of_updateMacros hupdate h.file h.sturdy)
  · obtain ⟨macros, hmacros, hsaved, rfl⟩ := Team.updateMacros_eq_ok hupdate
    obtain ⟨hall, hfound⟩ := hmade macros hmacros
    exact Team.keeps_of_persist h.sound h.file h.persistent h.sturdy.tree hall hfound hsaved

/-- A change of macros that succeeds keeps every macro that is among the changed ones. -/
theorem keeps_of_changed (hsound : t.Sound) (hfile : t.config.macros.file = some path)
    (hpersistent : t.config.macros.persistent = true) (htree : files.IsTree) (kind name : String)
    (made : Team → Except MacroError MacroTable)
    (hok : ((ofExcept fun files _ t =>
      let (files, result) := t.updateMacros files kind name (made t)
      (files, result.map fun (t, notices) => (t, notices, ()))) files now t).2.2.2 = .ok ()) :
    ∃ macros, made t = .ok macros ∧ (macros.Made t.verbs t.config.macros.limits →
      ∀ m, macros.entries.lookup m.name = some m →
        let done := (ofExcept fun files _ t =>
          let (files, result) := t.updateMacros files kind name (made t)
          (files, result.map fun (t, notices) => (t, notices, ()))) files now t
        done.2.1.Keeps path m done.1) := by
  simp only [ofExcept] at hok ⊢
  rcases hupdate : t.updateMacros files kind name (made t) with ⟨files', error | ⟨t', notices⟩⟩
  · rw [hupdate] at hok
    cases hok
  · obtain ⟨macros, hmacros, hsaved, rfl⟩ := Team.updateMacros_eq_ok hupdate
    exact ⟨macros, hmacros, fun hall m hfound =>
      Team.keeps_of_persist hsound hfile hpersistent htree hall hfound hsaved⟩

end TeamAction

/-! ### What happens in one go -/

namespace MacroCall

/-- Whether a call gives a name the macro of a body. -/
def Defines (name body : String) (call : MacroCall) : Prop :=
  call = .add name body ∨ call = .change name body

def step : MacroCall → TeamStep
  | .add name body => .addMacro name body
  | .change name body => .changeMacro name body
  | .remove name => .removeMacro name
  | .reload => .reloadMacros
  | .reset => .reset

end MacroCall

namespace Station

variable {s : Station} {path : String} {m : Macro}

/-- Whether a step changes or removes the macro of a name, or restores macros. -/
def Touches (s : Station) (name : String) : TeamStep → Prop
  | .changeMacro other body => Text.lower other = name ∧
    (TeamAction.changeMacro other body s.host.files s.host.now s.team).2.2.2 = .ok ()
  | .removeMacro other => Text.lower other = name ∧
    (TeamAction.removeMacro other s.host.files s.host.now s.team).2.2.2 = .ok ()
  | .restore _ => True
  | _ => False

theorem keeps_of_failed (h : s.team.Keeps path m s.host.files) (call : MacroCall)
    (hfails : (call.action s.host.files s.host.now s.team).2.2.2 ≠ .ok ()) :
    (call.action s.host.files s.host.now s.team).2.1.Keeps path m
      (call.action s.host.files s.host.now s.team).1 := by
  cases hresult : (call.action s.host.files s.host.now s.team).2.2.2 with
  | ok done => exact absurd hresult hfails
  | error error =>
      obtain ⟨files', haction, hleaves⟩ := call.failsClean _ _ _ _ hresult
      rw [haction]
      exact h.leaves (hleaves path h.file h.sturdy)

theorem keeps_addMacro (h : s.team.Keeps path m s.host.files) (name body : String) :
    (s.step (.addMacro name body)).team.Keeps path m (s.filesBehind (.addMacro name body)) := by
  refine TeamAction.keeps_of_updateMacros h "macro.added" name
    (fun t => t.compileMacro name body >>= t.macros.add) fun macros hmacros => ?_
  obtain ⟨added, hcompile, hadd⟩ := exists_of_bind_eq_ok hmacros
  exact ⟨h.sound.macros.add (Macro.made_of_compile h.sound.distinct hcompile) hadd,
    MacroTable.lookup_add hadd h.memory⟩

theorem keeps_changeMacro (h : s.team.Keeps path m s.host.files) {name body : String}
    (hspares : ¬s.Touches m.name (.changeMacro name body)) :
    (s.step (.changeMacro name body)).team.Keeps path m (s.filesBehind (.changeMacro name body)) := by
  by_cases hsame : Text.lower name = m.name
  · exact keeps_of_failed h (.change name body) fun hok => hspares ⟨hsame, hok⟩
  · refine TeamAction.keeps_of_updateMacros h "macro.changed" name
      (fun t => t.compileMacro name body >>= fun m => (t.macros.change m).map Prod.fst)
      fun macros hmacros => ?_
    obtain ⟨changed, hcompile, hmapped⟩ := exists_of_bind_eq_ok hmacros
    obtain ⟨⟨_, old⟩, hchange, rfl⟩ := exists_of_map_eq_ok hmapped
    have hother : ¬(m.name == changed.name) = true := by
      rw [Macro.name_of_compile hcompile, beq_iff_eq]
      exact Ne.symm hsame
    refine ⟨h.sound.macros.change (Macro.made_of_compile h.sound.distinct hcompile) hchange, ?_⟩
    rw [MacroTable.lookup_change hchange, if_neg hother]
    exact h.memory

theorem keeps_removeMacro (h : s.team.Keeps path m s.host.files) {name : String}
    (hspares : ¬s.Touches m.name (.removeMacro name)) :
    (s.step (.removeMacro name)).team.Keeps path m (s.filesBehind (.removeMacro name)) := by
  by_cases hsame : Text.lower name = m.name
  · exact keeps_of_failed h (.remove name) fun hok => hspares ⟨hsame, hok⟩
  · refine TeamAction.keeps_of_updateMacros h "macro.removed" name
      (fun t => (t.macros.remove name).map Prod.fst) fun macros hmacros => ?_
    obtain ⟨⟨_, old⟩, hremove, rfl⟩ := exists_of_map_eq_ok hmacros
    have hother : ¬(m.name == Text.lower name) = true := by
      rw [beq_iff_eq]
      exact Ne.symm hsame
    refine ⟨h.sound.macros.remove hremove, ?_⟩
    rw [MacroTable.lookup_remove hremove, if_neg hother]
    exact h.memory

theorem keeps_reloadMacros (h : s.team.Keeps path m s.host.files) :
    (s.step .reloadMacros).team.Keeps path m (s.filesBehind .reloadMacros) := by
  show (TeamAction.reloadMacros s.host.files s.host.now s.team).2.1.Keeps path m
    (TeamAction.reloadMacros s.host.files s.host.now s.team).1
  rw [TeamAction.reloadMacros_eq]
  cases hread : Team.readMacroFile s.host.files s.team.config with
  | error error => exact h
  | ok read =>
      obtain ⟨file, rfl, hholds⟩ := h.holds_of_read hread
      exact h.takeMacroFile hholds

theorem keeps_reset (h : s.team.Keeps path m s.host.files) :
    (s.step .reset).team.Keeps path m (s.filesBehind .reset) := by
  show (TeamAction.reset s.host.files s.host.now s.team).2.1.Keeps path m
    (TeamAction.reset s.host.files s.host.now s.team).1
  rw [TeamAction.reset_eq]
  cases hread : Team.readMacroFile s.host.files s.team.config with
  | error error => exact h
  | ok read =>
      obtain ⟨file, rfl, hholds⟩ := h.holds_of_read hread
      exact h.takeReset hholds

/-- What a macro is spared by leaves it in memory and in the file. -/
theorem keeps_step (h : s.team.Keeps path m s.host.files) {σ : TeamStep}
    (hspares : ¬s.Touches m.name σ) : (s.step σ).team.Keeps path m (s.filesBehind σ) := by
  cases hσ : σ.onMacros with
  | false =>
      obtain ⟨hsame, hfiles⟩ := s.repertoire_step hσ
      rw [hfiles]
      exact h.of_repertoire hsame
  | true =>
      cases σ with
      | reset => exact keeps_reset h
      | addMacro name body => exact keeps_addMacro h name body
      | changeMacro name body => exact keeps_changeMacro h hspares
      | removeMacro name => exact keeps_removeMacro h hspares
      | reloadMacros => exact keeps_reloadMacros h
      | restore stored => exact absurd trivial hspares
      | _ => cases hσ

end Station

namespace Station

variable {s : Station} {path name body : String} {call : MacroCall}

/-- A macro that a call defines is kept. -/
theorem keeps_of_defines (hsound : s.team.Sound) (hfile : s.team.config.macros.file = some path)
    (hpersistent : s.team.config.macros.persistent = true) (htree : s.host.files.IsTree)
    (hcall : call.Defines name body)
    (hok : (call.action s.host.files s.host.now s.team).2.2.2 = .ok ()) :
    ∃ m, s.team.compileMacro name body = .ok m ∧
      (s.step call.step).team.Keeps path m (s.filesBehind call.step) := by
  rcases hcall with rfl | rfl
  · obtain ⟨macros, hmacros, hkeeps⟩ := TeamAction.keeps_of_changed hsound hfile hpersistent htree
      "macro.added" name (fun t => t.compileMacro name body >>= t.macros.add) hok
    obtain ⟨m, hcompile, hadd⟩ := exists_of_bind_eq_ok hmacros
    have hmade := hsound.macros.add (Macro.made_of_compile hsound.distinct hcompile) hadd
    exact ⟨m, hcompile, hkeeps hmade m (MacroTable.lookup_add_self hadd)⟩
  · obtain ⟨macros, hmacros, hkeeps⟩ := TeamAction.keeps_of_changed hsound hfile hpersistent htree
      "macro.changed" name
      (fun t => t.compileMacro name body >>= fun m => (t.macros.change m).map Prod.fst) hok
    obtain ⟨m, hcompile, hmapped⟩ := exists_of_bind_eq_ok hmacros
    obtain ⟨⟨_, old⟩, hchange, rfl⟩ := exists_of_map_eq_ok hmapped
    have hmade := hsound.macros.change (Macro.made_of_compile hsound.distinct hcompile) hchange
    refine ⟨m, hcompile, hkeeps hmade m ?_⟩
    rw [MacroTable.lookup_change hchange, if_pos (beq_self_eq_true m.name)]

end Station

/-! ### Calls under way -/

/-- What the macro file is read for. -/
inductive Purpose where
  | reload
  | reset

/-- A call that has read the macro file and not replaced the macros yet. -/
structure Reading where
  ticket : Nat
  purpose : Purpose
  file : Option MacroFile

/-- A team with the calls that are under way. -/
structure Traffic where
  station : Station
  readings : List Reading := []
  nextTicket : Nat := 0

inductive TrafficStep where
  /-- Something that happens in one go. -/
  | whole (σ : TeamStep)
  /-- The first half of a reload or a reset. -/
  | read (purpose : Purpose)
  /-- The second half of the call with a ticket. -/
  | replace (ticket : Nat)

def Station.replace (s : Station) (r : Reading) : Station :=
  match r.purpose with
  | .reload => s.perform fun files now t => (files, t.takeMacroFile now r.file)
  | .reset => s.perform fun files now t =>
    let (t, notices) := t.takeReset now r.file
    (files, t, notices, ())

namespace Station

variable {s : Station} {path : String} {m : Macro} {r : Reading}

theorem keeps_replace (h : s.team.Keeps path m s.host.files) {file : MacroFile}
    (hfile : r.file = some file) (hholds : file.Holds s.team.verbs s.team.config.macros.limits m) :
    (s.replace r).team.Keeps path m s.host.files := by
  obtain ⟨ticket, purpose, read⟩ := r
  cases hfile
  cases purpose with
  | reload => exact h.takeMacroFile hholds
  | reset => exact h.takeReset hholds

/-- Whatever was read, the macros that it is replaced by are made with the verbs of the team. -/
theorem sound_replace (h : s.team.Sound) (r : Reading) : (s.replace r).team.Sound := by
  obtain ⟨ticket, purpose, read⟩ := r
  have hmade : ∀ stored, MacroTable.Made s.team.verbs s.team.config.macros.limits
      (MacroTable.ofSteps s.team.verbs s.team.config.macros.limits stored).1 :=
    MacroTable.made_ofSteps h.distinct
  cases purpose with
  | reset => exact ⟨h.distinct, h.accepted, hmade _⟩
  | reload =>
      cases read with
      | none => exact h
      | some file => exact ⟨h.distinct, h.accepted, hmade file.macros⟩

theorem settings_replace (s : Station) (r : Reading) :
    (s.replace r).team.config = s.team.config ∧ (s.replace r).team.verbs = s.team.verbs := by
  obtain ⟨ticket, purpose, read⟩ := r
  cases purpose with
  | reset => exact ⟨rfl, rfl⟩
  | reload => cases read <;> exact ⟨rfl, rfl⟩

end Station

namespace Traffic

/-- A reading that fails ends its call. -/
def step (s : Traffic) : TrafficStep → Traffic
  | .whole σ => { s with station := s.station.step σ }
  | .read purpose =>
    match Team.readMacroFile s.station.host.files s.station.team.config with
    | .ok file =>
      { s with
        readings := s.readings ++ [{ ticket := s.nextTicket, purpose, file }]
        nextTicket := s.nextTicket + 1 }
    | .error _ => s
  | .replace ticket =>
    match s.readings.find? fun r => r.ticket = ticket with
    | some r =>
      { s with
        station := s.station.replace r
        readings := s.readings.filter fun r => r.ticket ≠ ticket }
    | none => s

def run (s : Traffic) (steps : List TrafficStep) : Traffic := steps.foldl step s

/-- The files as a step leaves them, before anything is logged or published. -/
def filesBehind (s : Traffic) : TrafficStep → Files
  | .whole σ => s.station.filesBehind σ
  | _ => s.station.host.files

/-- Whether tickets are given out once. -/
def Numbered (s : Traffic) : Prop := ∀ r ∈ s.readings, r.ticket < s.nextTicket

theorem step_read {s : Traffic} {file : Option MacroFile} (purpose : Purpose)
    (hread : Team.readMacroFile s.station.host.files s.station.team.config = .ok file) :
    s.step (.read purpose) =
      { s with
        readings := s.readings ++ [{ ticket := s.nextTicket, purpose, file }]
        nextTicket := s.nextTicket + 1 } := by
  rw [Traffic.step, hread]

theorem step_replace {s : Traffic} {r : Reading} {ticket : Nat}
    (h : s.readings.find? (fun r => r.ticket = ticket) = some r) :
    s.step (.replace ticket) =
      { s with
        station := s.station.replace r
        readings := s.readings.filter fun r => r.ticket ≠ ticket } := by
  rw [Traffic.step, h]

/-- What a step can come to: nothing happens, or all of it in one go, or the file is read, or macros are
replaced by those that were read. -/
@[elab_as_elim]
theorem step_cases {motive : Traffic → Prop} (s : Traffic) (σ : TrafficStep) (stays : motive s)
    (whole : ∀ σ', σ = .whole σ' → motive { s with station := s.station.step σ' })
    (reads : ∀ purpose file, σ = .read purpose →
      Team.readMacroFile s.station.host.files s.station.team.config = .ok file →
      motive { s with
        readings := s.readings ++ [{ ticket := s.nextTicket, purpose, file }]
        nextTicket := s.nextTicket + 1 })
    (replaces : ∀ r ∈ s.readings, σ = .replace r.ticket → motive { s with
      station := s.station.replace r
      readings := s.readings.filter fun other => other.ticket ≠ r.ticket }) :
    motive (s.step σ) := by
  cases σ with
  | whole σ => exact whole σ rfl
  | read purpose =>
      cases hread : Team.readMacroFile s.station.host.files s.station.team.config with
      | error error => rwa [step, hread]
      | ok file =>
          rw [step_read purpose hread]
          exact reads purpose file rfl hread
  | replace ticket =>
      cases hfound : s.readings.find? fun r => r.ticket = ticket with
      | none => rwa [step, hfound]
      | some r =>
          obtain rfl : r.ticket = ticket := by simpa using List.find?_some hfound
          rw [step_replace hfound]
          exact replaces r (List.mem_of_find?_eq_some hfound) rfl

theorem Numbered.step {s : Traffic} (h : s.Numbered) (σ : TrafficStep) : (s.step σ).Numbered := by
  refine s.step_cases σ ?_ ?_ ?_ ?_
  · exact h
  · exact fun _ _ => h
  · intro _ _ _ _ r hr
    rcases List.mem_append.mp hr with hold | hnew
    · exact (h r hold).trans (Nat.lt_succ_self _)
    · rw [List.mem_singleton.mp hnew]
      exact Nat.lt_succ_self _
  · exact fun _ _ _ r hr => h r (List.mem_filter.mp hr).1

/-! ### Nothing is lost but to an earlier reading -/

variable {path : String} {m : Macro} {since : Nat}

/-- Whether a macro is kept, and known to all calls that have read the file from some ticket on. -/
structure Keeps (path : String) (m : Macro) (since : Nat) (s : Traffic) : Prop where
  team : s.station.team.Keeps path m s.station.host.files
  tickets : since ≤ s.nextTicket
  readings : ∀ r ∈ s.readings, since ≤ r.ticket → ∃ file, r.file = some file ∧
    file.Holds s.station.team.verbs s.station.team.config.macros.limits m

/-- Whether a step changes or removes a macro, restores macros, or replaces them by those that were
read before some ticket was given out. -/
def Touches (s : Traffic) (name : String) (since : Nat) : TrafficStep → Prop
  | .whole σ => s.station.Touches name σ
  | .read _ => False
  | .replace ticket => ticket < since

/-- Whether, throughout a run, no step touches a macro, and nobody else changes what the path of the
macro file leads to. -/
def Spares (path name : String) (since : Nat) : Traffic → List TrafficStep → Prop
  | _, [] => True
  | s, σ :: rest =>
    ¬s.Touches name since σ ∧
      Files.Leaves path (s.filesBehind σ) (s.step σ).station.host.files ∧
      Spares path name since (s.step σ) rest

theorem Keeps.step {s : Traffic} (h : s.Keeps path m since) {σ : TrafficStep}
    (hspares : ¬s.Touches m.name since σ)
    (hleaves : Files.Leaves path (s.filesBehind σ) (s.step σ).station.host.files) :
    (s.step σ).Keeps path m since := by
  revert hleaves
  refine s.step_cases σ ?_ ?_ ?_ ?_
  · exact fun _ => h
  · rintro σ rfl hleaves
    have hedited := s.station.edited_step σ
    refine ⟨(Station.keeps_step h.team hspares).leaves hleaves, h.tickets, fun r hr hticket => ?_⟩
    show ∃ file, r.file = some file ∧ file.Holds (s.station.step σ).team.verbs
      (s.station.step σ).team.config.macros.limits m
    rw [hedited.verbs, hedited.config]
    exact h.readings r hr hticket
  · intro purpose file _ hread _
    refine ⟨h.team, h.tickets.trans (Nat.le_succ _), fun r hr hticket => ?_⟩
    rcases List.mem_append.mp hr with hold | hnew
    · exact h.readings r hold hticket
    · rw [List.mem_singleton.mp hnew]
      exact h.team.holds_of_read hread
  · rintro r hr rfl hleaves
    obtain ⟨file, hfile, hholds⟩ := h.readings r hr (Nat.not_lt.mp hspares)
    obtain ⟨hconfig, hverbs⟩ := s.station.settings_replace r
    refine ⟨(Station.keeps_replace h.team hfile hholds).leaves hleaves, h.tickets, ?_⟩
    intro r' hr' hlate
    show ∃ file, r'.file = some file ∧ file.Holds (s.station.replace r).team.verbs
      (s.station.replace r).team.config.macros.limits m
    rw [hconfig, hverbs]
    exact h.readings r' (List.mem_filter.mp hr').1 hlate

theorem Keeps.run {s : Traffic} (h : s.Keeps path m since) {steps : List TrafficStep}
    (hspares : s.Spares path m.name since steps) : (s.run steps).Keeps path m since := by
  induction steps generalizing s with
  | nil => exact h
  | cons σ rest ih =>
      obtain ⟨htouches, hleaves, hrest⟩ := hspares
      exact ih (h.step htouches hleaves) hrest

/-- What the team of a run is, apart from its macros. -/
structure Settled (config : TeamConfig) (verbs : VerbTable) (s : Traffic) : Prop where
  sound : s.station.team.Sound
  config : s.station.team.config = config
  verbs : s.station.team.verbs = verbs
  numbered : s.Numbered

theorem Settled.step {config : TeamConfig} {verbs : VerbTable} {s : Traffic} (h : s.Settled config verbs)
    (σ : TrafficStep) : (s.step σ).Settled config verbs := by
  have hnumbered := h.numbered.step σ
  revert hnumbered
  refine s.step_cases σ ?_ ?_ ?_ ?_
  · exact fun _ => h
  · intro σ _ hnumbered
    have hedited := s.station.edited_step σ
    exact ⟨h.sound.edited hedited, hedited.config.trans h.config, hedited.verbs.trans h.verbs, hnumbered⟩
  · exact fun _ _ _ _ hnumbered => ⟨h.sound, h.config, h.verbs, hnumbered⟩
  · intro r _ _ hnumbered
    obtain ⟨hconfig, hverbs⟩ := s.station.settings_replace r
    exact ⟨Station.sound_replace h.sound r, hconfig.trans h.config, hverbs.trans h.verbs, hnumbered⟩

theorem Settled.run {config : TeamConfig} {verbs : VerbTable} {s : Traffic} (h : s.Settled config verbs)
    (steps : List TrafficStep) : (s.run steps).Settled config verbs := by
  induction steps generalizing s with
  | nil => exact h
  | cons σ rest ih => exact ih (h.step σ)

/-- **Overlapping calls.** Reloads and resets of a team that keeps its macros in a file read the file and
replace the macros later, with anything in between. Once a macro was added or changed with success, it
is in memory and in the file, whatever happens then, until it is changed or removed, macros are
restored, or somebody else writes the file. The one exception is a call that had read the file before. -/
theorem defined_macro_stays {d : Declarations} {verbs : VerbTable} (hbuild : d.build = .ok verbs)
    {host : Host} {seed : Nat} {config : TeamConfig} {telemetry : Option Telemetry} {station : Station}
    (hstart : Station.start host seed config verbs telemetry = .ok station) {path : String}
    (hfile : config.macros.file = some path) (hpersistent : config.macros.persistent = true)
    {before : List TrafficStep} {s : Traffic} (hs : s = run { station } before)
    (htree : s.station.host.files.IsTree) {name body : String} {call : MacroCall}
    (hcall : call.Defines name body)
    (hok : (call.action s.station.host.files s.station.host.now s.station.team).2.2.2 = .ok ())
    (hleaves : Files.Leaves path (s.filesBehind (.whole call.step))
      (s.step (.whole call.step)).station.host.files)
    {rest : List TrafficStep}
    (hspares : (s.step (.whole call.step)).Spares path (Text.lower name) s.nextTicket rest) :
    ∃ m, s.station.team.compileMacro name body = .ok m ∧
      let last := ((s.step (.whole call.step)).run rest).station
      last.team.macros.get? name = some m ∧ ∃ file, MacroFile.load last.host.files path = .ok file ∧
        file.macros.lookup (Text.lower name) = some m.steps := by
  obtain ⟨⟨host', member⟩, hmember, hstation⟩ := exists_of_bind_eq_ok hstart
  obtain ⟨⟨team, notices⟩, hteam, hmember⟩ := exists_of_bind_eq_ok hmember
  cases hmember
  cases hstation
  obtain ⟨hconfig, hverbs, -⟩ := Team.start_eq_ok hteam
  let start : Traffic := {
    station := { host := host.notifyAll telemetry notices, member := { team, telemetry } } }
  have hstart : start.Settled config verbs :=
    ⟨(Team.Reachable.start hbuild hteam).sound, hconfig, hverbs,
      fun _ hr => absurd hr List.not_mem_nil⟩
  have hsettled : s.Settled config verbs := hs ▸ hstart.run before
  obtain ⟨m, hcompile, hkeeps⟩ := Station.keeps_of_defines hsettled.sound
    (by rw [hsettled.config]; exact hfile) (by rw [hsettled.config]; exact hpersistent) htree hcall hok
  have hname : m.name = Text.lower name := Macro.name_of_compile hcompile
  have hkept : (s.step (.whole call.step)).Keeps path m s.nextTicket :=
    ⟨hkeeps.leaves hleaves, le_rfl, fun r hr hlate =>
      absurd (hsettled.numbered r hr) (Nat.not_lt.mpr hlate)⟩
  rw [← hname] at hspares
  obtain ⟨hlast, -, -⟩ := hkept.run hspares
  obtain ⟨file, hload, hholds⟩ := hlast.stored
  refine ⟨m, hcompile, ?_, file, hload, ?_⟩
  · rw [MacroTable.get?, ← hname]
    exact hlast.memory
  · rw [← hname]
    exact hholds.lookup

/-- What happens to a team alone on its host reaches no other files. -/
theorem alone_step {s : Traffic} (h : s.station.Alone) {σ : TrafficStep}
    (hσ : ∀ files, σ ≠ .whole (.changeFiles files)) :
    (s.step σ).station.Alone ∧ (s.step σ).station.host.files = s.filesBehind σ := by
  cases σ with
  | whole σ => exact h.step fun files hσ' => hσ files (hσ' ▸ rfl)
  | read purpose =>
      have hstation : (s.step (.read purpose)).station = s.station := by
        rw [Traffic.step]
        split <;> rfl
      rw [hstation]
      exact ⟨h, rfl⟩
  | replace ticket =>
      rw [Traffic.step]
      split
      · rename_i r _
        obtain ⟨ticket, purpose, read⟩ := r
        cases purpose with
        | reload => exact h.perform fun files now t => (files, t.takeMacroFile now read)
        | reset =>
            exact h.perform fun files now t =>
              (files, (t.takeReset now read).1, (t.takeReset now read).2, ())
      · exact ⟨h, rfl⟩

theorem spares_cons_of_alone {s : Traffic} (h : s.station.Alone) (path : String) {name : String}
    {since : Nat} {σ : TrafficStep} {rest : List TrafficStep}
    (hσ : ∀ files, σ ≠ .whole (.changeFiles files)) (htouches : ¬s.Touches name since σ)
    (hrest : (s.step σ).station.Alone → (s.step σ).Spares path name since rest) :
    s.Spares path name since (σ :: rest) := by
  obtain ⟨halone, hbehind⟩ := alone_step h hσ
  exact ⟨htouches, hbehind ▸ .refl path _, hrest halone⟩

/-- A team whose macro file is missing, while a reload has found nothing to load. -/
def racing : Traffic := run { station := Station.keeping "m.json" {} } [.read .reload]

theorem racing_alone : racing.station.Alone :=
  (alone_step (s := { station := Station.keeping "m.json" {} }) (σ := .read .reload) ⟨rfl, rfl⟩
    nofun).1

/-- A macro that is added while the reload is under way outlasts a whole reset and another change. -/
theorem defined_macro_stays_hop :
    let last := ((racing.step (.whole (.addMacro "hop" "jump 50"))).run
      [.read .reset, .whole (.addMacro "dash" "right 200"), .replace 1]).station
    (∃ m, last.team.macros.get? "hop" = some m) ∧
      ∃ file, MacroFile.load last.host.files "m.json" = .ok file ∧ file.macros.lookup "hop" ≠ none := by
  have hbuild : Declarations.build { profile := "", verbs := MacroTable.jumpAndRight.verbs } =
      .ok MacroTable.jumpAndRight := rfl
  have hstart : Station.start (Station.keeping "m.json" {}).host 0
      (Station.keeping "m.json" {}).team.config MacroTable.jumpAndRight none =
        .ok (Station.keeping "m.json" {}) := rfl
  have hticket : racing.nextTicket = 1 := by decide +kernel
  have hadded := alone_step (σ := .whole (.addMacro "hop" "jump 50")) racing_alone nofun
  have hspares : (racing.step (.whole (.addMacro "hop" "jump 50"))).Spares "m.json" (Text.lower "hop")
      racing.nextTicket [.read .reset, .whole (.addMacro "dash" "right 200"), .replace 1] := by
    refine spares_cons_of_alone hadded.1 _ nofun id fun hread => ?_
    refine spares_cons_of_alone hread _ nofun id fun hdashed => ?_
    refine spares_cons_of_alone hdashed _ nofun ?_ fun _ => trivial
    rw [hticket]
    exact Nat.lt_irrefl 1
  have hcall : MacroCall.Defines "hop" "jump 50" (.add "hop" "jump 50") := .inl rfl
  obtain ⟨m, -, hmemory, file, hload, hstored⟩ := defined_macro_stays hbuild hstart rfl rfl rfl
    (Files.isTree_of_entries (by decide +kernel) (by decide +kernel)) hcall (by decide +kernel)
    (hadded.2 ▸ .refl _ _) hspares
  have hlower : Text.lower "hop" = "hop" := by decide +kernel
  rw [hlower] at hstored
  exact ⟨⟨m, hmemory⟩, file, hload, hstored ▸ Option.some_ne_none _⟩

/-- The reload itself, though it neither names the macro nor writes the file, takes the macro from
memory, and the next change takes it from the file. -/
theorem earlier_reading_loses_macro :
    (TeamAction.addMacro "hop" "jump 50" racing.station.host.files racing.station.host.now
      racing.station.team).2.2.2 = .ok () ∧
    let added := racing.step (.whole (.addMacro "hop" "jump 50"))
    let rest := [.replace 0, .whole (.addMacro "dash" "right 200")]
    added.Spares "m.json" "hop" 0 rest ∧ (added.station.team.macros.get? "hop").isSome ∧
      ((added.step (.replace 0)).station.team.macros.get? "hop") = none ∧
      ∃ file, MacroFile.load (added.run rest).station.host.files "m.json" = .ok file ∧
        file.macros.lookup "hop" = none := by
  have hadded := alone_step (σ := .whole (.addMacro "hop" "jump 50")) racing_alone nofun
  refine ⟨by decide +kernel, ?_, by decide +kernel, by decide +kernel,
    { name := "red", macros := [("dash", [{ verb := "right", durationMs := 200 }])] },
    by decide +kernel, by decide +kernel⟩
  refine spares_cons_of_alone hadded.1 _ nofun (Nat.not_lt_zero 0) fun hreplaced => ?_
  exact spares_cons_of_alone hreplaced _ nofun id fun _ => trivial

end Traffic

end CrowdPad
