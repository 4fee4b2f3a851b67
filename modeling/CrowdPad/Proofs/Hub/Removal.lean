import CrowdPad.Proofs.Hub.Startup
import CrowdPad.Proofs.Telemetry.Log

/-! Taking a team that does not start out of a configuration. It has not touched anything that the other
teams start from, except that its log may be there; where that is out of the way, the others start, or
fail to start, as if it had never been declared. -/

namespace CrowdPad

/-! ### Starting a team -/

namespace Files

variable {base fs : Files}

theorem grows_write (htree : fs.IsTree) (log : Log) (timestamp : String) (r : LogRecord) :
    Grows fs (log.write fs timestamp r) ∧ (log.write fs timestamp r).IsTree := by
  rw [Log.write]
  split
  · exact ⟨.refl fs, htree⟩
  · split
    · rename_i happended
      obtain ⟨place, content, hplace, hbefore, rfl⟩ := modify_eq_ok happended
      have haround := (spot_of_place htree hplace hbefore).2.2
      exact ⟨grows_put hbefore content, htree.of_differs (differs_put place _ fs) hbefore fun _ => haround⟩
    · exact ⟨.refl fs, htree⟩

end Files

theorem Team.readMacroFile_congr {fs fs' : Files} {config : TeamConfig}
    (h : ∀ path, config.macros.file = some path → fs'.at? path = fs.at? path) :
    readMacroFile fs' config = readMacroFile fs config := by
  rw [readMacroFile, readMacroFile]
  cases hfile : config.macros.file with
  | none => rfl
  | some path => simp only [MacroFile.load_congr (h path hfile)]

/-- What a team starts from is what its macro file leads to. -/
theorem Team.start_congr {fs fs' : Files} {config : TeamConfig}
    (h : ∀ path, config.macros.file = some path → fs'.at? path = fs.at? path) (now : Time) (seed : Nat)
    (verbs : VerbTable) : start fs' now seed config verbs = start fs now seed config verbs := by
  rw [start, start, readMacroFile_congr h]

/-- A team that starts says so in its log, and nothing else. -/
theorem Team.notices_of_start {fs : Files} {now : Time} {seed : Nat} {config : TeamConfig}
    {verbs : VerbTable} {t : Team} {notices : List Notice}
    (h : start fs now seed config verbs = .ok (t, notices)) :
    ∃ message metadata, notices = [.log .info message metadata] := by
  obtain ⟨-, hnotices, -⟩ := exists_of_start_eq_ok h
  exact hnotices

namespace Hub

variable {publishes : Bool} {config : ProgramConfig} {seed : Nat} {host : Host} {entry : TeamEntry}
  {verbs : VerbTable} {base files : Files} {state state' : Hub × Catalogue}

theorem startMember_eq (host : Host) (seed : Nat) (settings : TeamConfig) (verbs : VerbTable)
    (telemetry : Option Telemetry) : startMember host seed settings verbs telemetry =
      (Team.start host.files host.now seed settings verbs).map fun started =>
        (host.notifyAll telemetry started.2, { team := started.1, telemetry }) := by
  rw [startMember]
  cases Team.start host.files host.now seed settings verbs <;> rfl

theorem tryEntry_eq (publishes : Bool) (config : ProgramConfig) (seed : Nat) (state : Hub × Catalogue)
    (entry : TeamEntry) : tryEntry publishes config seed state.1 state.2 entry =
      if state.1.names.contains entry.name then
        (state.1.host, state.2, .error (.setup (.duplicateTeam entry.name)))
      else
        match (state.2.resolve entry.profile).2 with
        | .error error => (state.1.host, (state.2.resolve entry.profile).1, .error (.setup error))
        | .ok verbs =>
          let started :=
            startEntry publishes config state.1.host (seed + state.1.members.length) verbs entry
          (started.1, (state.2.resolve entry.profile).1, started.2.mapError .start) := by
  rw [tryEntry]
  rcases state.2.resolve entry.profile with ⟨catalogue, error | verbs⟩
  · rfl
  · simp only
    rcases startEntry publishes config state.1.host (seed + state.1.members.length) verbs entry with
      ⟨host, error | m⟩ <;> rfl

/-- Whether a declared team was refused before its log was opened. -/
def Outcome.isRefused : Outcome → Bool
  | (_, .error (.setup _)) => true
  | _ => false

theorem not_isRefused_tryEntry (hnew : ¬state.1.names.contains entry.name)
    (hverbs : (state.2.resolve entry.profile).2 = .ok verbs) :
    Outcome.isRefused (entry, (tryEntry publishes config seed state.1 state.2 entry).2.2) = false := by
  rw [tryEntry_eq, if_neg hnew, hverbs]
  simp only
  rcases startEntry publishes config state.1.host (seed + state.1.members.length) verbs entry with
    ⟨host, error | m⟩
  · rfl
  · rfl

/-! ### Two runs side by side -/

section

variable {R : Files → Files → Prop}

/-- Whether two hubs differ in their files only, in a certain way, and profiles are the same in both. -/
structure Paired (R : Files → Files → Prop) (state state' : Hub × Catalogue) : Prop where
  members : state'.1.members = state.1.members
  host : state'.1.host = { state.1.host with files := state'.1.host.files }
  files : R state.1.host.files state'.1.host.files
  profiles : ∀ name, (state'.2.resolve name).2 = (state.2.resolve name).2

/-- Whether a declared team starts alike with files that differ in a certain way, and leaves them so. -/
def StartsAlike (R : Files → Files → Prop) (publishes : Bool) (config : ProgramConfig)
    (entry : TeamEntry) : Prop :=
  ∀ (host : Host) (files : Files) (seed : Nat) (verbs : VerbTable), R host.files files →
    ∃ host' files' outcome, startEntry publishes config host seed verbs entry = (host', outcome) ∧
      startEntry publishes config { host with files } seed verbs entry =
        ({ host' with files := files' }, outcome) ∧ R host'.files files'

/-- A declared team that starts alike, if it comes to that, has the same outcome in both hubs. -/
theorem Paired.tryEntry (h : Paired R state state') (seed : Nat)
    (halike : Outcome.isRefused
        (entry, (tryEntry publishes config seed state'.1 state'.2 entry).2.2) = false →
      StartsAlike R publishes config entry) :
    ∃ host files outcome, (tryEntry publishes config seed state.1 state.2 entry).2.2 = outcome ∧
      (tryEntry publishes config seed state'.1 state'.2 entry).2.2 = outcome ∧
      (tryEntry publishes config seed state.1 state.2 entry).1 = host ∧
      (tryEntry publishes config seed state'.1 state'.2 entry).1 = { host with files } ∧
      R host.files files := by
  have hnames : state'.1.names = state.1.names := congrArg (List.map Member.name) h.members
  have hprofile := h.profiles entry.profile
  rw [tryEntry_eq publishes config seed state, tryEntry_eq publishes config seed state', hnames,
    h.members, hprofile]
  by_cases hnew : state.1.names.contains entry.name
  · rw [if_pos hnew, if_pos hnew]
    exact ⟨_, _, _, rfl, rfl, rfl, h.host, h.files⟩
  · rw [if_neg hnew, if_neg hnew]
    cases hverbs : (state.2.resolve entry.profile).2 with
    | error error => exact ⟨_, _, _, rfl, rfl, rfl, h.host, h.files⟩
    | ok verbs =>
        have halike := halike (not_isRefused_tryEntry (hnames ▸ hnew) (hprofile.trans hverbs))
        obtain ⟨host', files', outcome, hstart, hstart', hrelated⟩ := halike state.1.host
          state'.1.host.files (seed + state.1.members.length) verbs h.files
        rw [← h.host] at hstart'
        simp only [hstart, hstart']
        exact ⟨host', files', _, rfl, rfl, rfl, rfl, hrelated⟩

theorem Paired.addEntry (h : Paired R state state') (seed : Nat)
    (halike : Outcome.isRefused
        (entry, (Hub.tryEntry publishes config seed state'.1 state'.2 entry).2.2) = false →
      StartsAlike R publishes config entry) :
    (Hub.tryEntry publishes config seed state'.1 state'.2 entry).2.2 =
        (Hub.tryEntry publishes config seed state.1 state.2 entry).2.2 ∧
      Paired R (Hub.addEntry publishes config seed state.1 state.2 entry)
        (Hub.addEntry publishes config seed state'.1 state'.2 entry) := by
  obtain ⟨host, files, outcome, houtcome, houtcome', hhost, hhost', hrelated⟩ :=
    h.tryEntry seed halike
  obtain ⟨hmembers, -, hkept, -⟩ := addEntry_hub publishes config seed state entry houtcome
  obtain ⟨hmembers', -, hkept', -⟩ := addEntry_hub publishes config seed state' entry houtcome'
  refine ⟨houtcome'.trans houtcome.symm, ?_, ?_, ?_, fun name => ?_⟩
  · rw [hmembers, hmembers', h.members]
  · rw [hkept, hkept', hhost, hhost']
  · rw [hkept, hkept', hhost, hhost']
    exact hrelated
  · rw [resolve_addEntry, resolve_addEntry, h.profiles name]

/-- Teams that start alike have the same outcomes in both hubs. -/
theorem Paired.outcomes (h : Paired R state state') {entries : List TeamEntry}
    (halike : ∀ o ∈ Hub.outcomes publishes config seed state' entries, o.isRefused = false →
      StartsAlike R publishes config o.1) :
    Hub.outcomes publishes config seed state' entries =
      Hub.outcomes publishes config seed state entries := by
  induction entries generalizing state state' with
  | nil => rfl
  | cons entry rest ih =>
      obtain ⟨houtcome, hpaired⟩ := h.addEntry seed (halike _ (List.mem_cons_self ..))
      rw [Hub.outcomes, Hub.outcomes, houtcome,
        ih hpaired fun o ho => halike o (List.mem_cons_of_mem _ ho)]

end

theorem startsAlike_eq (publishes : Bool) (config : ProgramConfig) (entry : TeamEntry) :
    StartsAlike (· = ·) publishes config entry := by
  rintro host files seed verbs rfl
  exact ⟨_, _, _, rfl, rfl, rfl⟩

/-! ### What a team that does not start leaves behind -/

/-- Whether a declared team keeps clear of the log that another one has made: its own log is opened out of
the way of it, and its macro file is neither that log nor in place of a folder around it. -/
structure KeepsClear (base : Files) (folder made : String) (entry : TeamEntry) : Prop where
  log : base.Evades made (logPath folder entry.name)
  sturdy : ∀ path, entry.macroFile = some path → base.Sturdy path
  folders : ∀ path, entry.macroFile = some path → base.spot path ∉ base.way (Path.around made)
  file : ∀ path, entry.macroFile = some path → base.spot path ≠ base.spot made

theorem notifyAll_log (host : Host) (telemetry : Telemetry) {log : Log} (hlog : telemetry.log = some log)
    (level : Level) (message : String) (metadata : Value) : ∃ record : LogRecord,
      ∀ files, { host with files }.notifyAll (some telemetry) [.log level message metadata] =
        { host with files := log.write files (timestamp host.epochMs host.now) record } := by
  refine ⟨LogRecord.withMetadata { component := telemetry.component, level, message } metadata,
    fun files => ?_⟩
  show { host with files }.log telemetry level message metadata = _
  rw [Host.log, hlog]

/-- A team that keeps clear of a log starts alike with and without what was left behind. -/
theorem startsAlike_surplus {folder made : String} (hfolder : config.telemetry.logFolder = some folder)
    (hclear : KeepsClear base folder made entry) :
    StartsAlike (Files.Surplus made base) publishes config entry := by
  intro host files seed verbs hsurplus
  have hfile := ofFile_logPath folder entry.name
  rw [startEntry, startEntry, openLog, openLog, hfolder]
  rcases hsurplus.tryOpen hfile hclear.log config.telemetry.minLevel with
    ⟨fault, g, g', hopen, hopen', hmore⟩ | ⟨g, g', hopen, hopen', hmore, hshared⟩
  · simp only [hopen, hopen']
    exact ⟨_, _, _, rfl, rfl, hmore⟩
  · simp only [hopen, hopen', startMember_eq]
    have hread : ∀ path, (config.teamConfig entry).macros.file = some path → g'.at? path = g.at? path :=
      fun path hpath => hmore.at?_eq (hclear.sturdy path hpath) (hclear.folders path hpath)
        (hclear.file path hpath)
    rw [Team.start_congr hread]
    cases hstart : Team.start g host.now seed (config.teamConfig entry) verbs with
    | error error => exact ⟨{ host with files := g }, g', .error error, rfl, rfl, hmore⟩
    | ok started =>
        obtain ⟨message, metadata, hnotices⟩ := Team.notices_of_start hstart
        obtain ⟨record, hwrite⟩ := notifyAll_log host
          { component := "team:" ++ entry.name,
            log := some { path := logPath folder entry.name, minLevel := config.telemetry.minLevel },
            publishes } rfl .info message metadata
        have hwritten := hmore.write
          { path := logPath folder entry.name, minLevel := config.telemetry.minLevel } hfile hshared
          (timestamp host.epochMs host.now) record
        simp only [Except.map, hnotices, hwrite]
        exact ⟨_, _, _, rfl, rfl, hwritten⟩

/-- Where a team does not start, its log may have been opened, and nothing else has changed. -/
theorem startEntry_error {host' : Host} {error : TeamError}
    (h : startEntry publishes config host seed verbs entry = (host', .error error)) :
    host' = (openLog host config.telemetry entry.name).1 := by
  unfold startEntry at h
  split at h
  · rename_i hopen
    cases h
    rw [hopen]
  · rename_i hopen
    simp only at h
    split at h
    · cases h
      rw [hopen]
    · cases h

theorem openLog_eq (host : Host) (config : TelemetryConfig) {folder name : String}
    (hfolder : config.logFolder = some folder) : ∃ files,
      (openLog host config name).1 = { host with files } ∧
        files = (Log.tryOpen host.files (logPath folder name) config.minLevel).1 := by
  rw [openLog, hfolder]
  simp only
  rcases Log.tryOpen host.files (logPath folder name) config.minLevel with ⟨files, fault | log⟩
  · exact ⟨files, rfl, rfl⟩
  · exact ⟨files, rfl, rfl⟩

theorem openLog_of_none (host : Host) (config : TelemetryConfig) (hfolder : config.logFolder = none)
    (name : String) : openLog host config name = (host, .ok none) := by
  rw [openLog, hfolder]

/-! ### Teams that start before -/

/-- Whether the files of a hub have grown from others, and are a tree. -/
structure Sprung (base files : Files) : Prop where
  grows : Files.Grows base files
  tree : files.IsTree

theorem Sprung.openLog (h : Sprung base host.files) (config : TelemetryConfig) (name : String) :
    Sprung base (Hub.openLog host config name).1.files := by
  cases hfolder : config.logFolder with
  | none =>
      rw [openLog_of_none host config hfolder]
      exact h
  | some folder =>
      have hopened :=
        Files.surplus_tryOpen h.tree h.grows (logPath folder name) config.minLevel
      obtain ⟨files, hhost, hfiles⟩ := openLog_eq host config hfolder
      rw [← hfiles] at hopened
      rw [hhost]
      exact ⟨hopened.grows', hopened.tree'⟩

theorem Sprung.startMember {settings : TeamConfig} {telemetry : Telemetry} {host' : Host} {m : Member}
    (h : Sprung base host.files)
    (hstart : Hub.startMember host seed settings verbs (some telemetry) = .ok (host', m)) :
    Sprung base host'.files := by
  rw [startMember_eq] at hstart
  obtain ⟨started, hstarted, hmade⟩ := exists_of_map_eq_ok hstart
  obtain ⟨message, metadata, hnotices⟩ := Team.notices_of_start hstarted
  cases hmade
  rw [hnotices]
  cases hlog : telemetry.log with
  | none =>
      have hsame : host.notifyAll (some telemetry) [.log .info message metadata] = host := by
        show host.log telemetry .info message metadata = host
        rw [Host.log, hlog]
      rw [hsame]
      exact h
  | some log =>
      obtain ⟨record, hwrite⟩ := notifyAll_log host telemetry hlog .info message metadata
      have hwritten := hwrite host.files
      rw [hwritten]
      obtain ⟨hgrows, htree⟩ := Files.grows_write h.tree log (timestamp host.epochMs host.now) record
      exact ⟨h.grows.trans hgrows, htree⟩

theorem Sprung.startEntry (h : Sprung base host.files) :
    Sprung base (Hub.startEntry publishes config host seed verbs entry).1.files := by
  have hopened := h.openLog config.telemetry entry.name
  rw [Hub.startEntry]
  split
  · rename_i hopen
    rw [hopen] at hopened
    exact hopened
  · rename_i hopen
    rw [hopen] at hopened
    simp only
    split
    · exact hopened
    · rename_i hstart
      exact hopened.startMember hstart

theorem Sprung.begun {entries : List TeamEntry} (h : Sprung base state.1.host.files) :
    Sprung base (Hub.begun publishes config seed state entries).1.host.files := by
  induction entries generalizing state with
  | nil => exact h
  | cons entry rest ih =>
      apply ih
      rw [(addEntry_hub publishes config seed state entry rfl).2.2.1, tryEntry_eq]
      split
      · exact h
      · split
        · exact h
        · exact h.startEntry

/-! ### Teams that start behind -/

/-- A team that is refused leaves the host as it is; one that cannot start may have opened its log. -/
theorem tryEntry_error {fault : EntryFault}
    (h : (tryEntry publishes config seed state.1 state.2 entry).2.2 = .error fault) :
    (tryEntry publishes config seed state.1 state.2 entry).1 = state.1.host ∨
      ∃ error folder files, fault = .start error ∧ config.telemetry.logFolder = some folder ∧
        (tryEntry publishes config seed state.1 state.2 entry).1 = { state.1.host with files } ∧
          files = (Log.tryOpen state.1.host.files (logPath folder entry.name)
            config.telemetry.minLevel).1 := by
  rw [tryEntry_eq] at h ⊢
  split
  · exact .inl rfl
  · rename_i hnew
    rw [if_neg hnew] at h
    cases hverbs : (state.2.resolve entry.profile).2 with
    | error error => exact .inl rfl
    | ok verbs =>
        rw [hverbs] at h
        simp only at h ⊢
        cases hstart : startEntry publishes config state.1.host (seed + state.1.members.length) verbs
          entry with
        | mk host result =>
            rw [hstart] at h
            cases result with
            | ok m => cases h
            | error error =>
                cases h
                have hhost := startEntry_error hstart
                cases hfolder : config.telemetry.logFolder with
                | none =>
                    rw [openLog_of_none _ _ hfolder] at hhost
                    exact .inl hhost
                | some folder =>
                    obtain ⟨files, hopened, hfiles⟩ := openLog_eq state.1.host _ hfolder
                    exact .inr ⟨error, folder, files, rfl, rfl, hhost.trans hopened, hfiles⟩

/-- Whether later teams keep clear of what a team left behind that does not start. That is nothing, unless
it came as far as its log, and concerns no others but those that come as far. -/
def OutOfTheWay (config : ProgramConfig) (base : Files) (entry : TeamEntry) (fault : EntryFault)
    (after : List Outcome) : Prop :=
  ∀ error folder, fault = .start error → config.telemetry.logFolder = some folder →
    base.IsTree ∧ ∀ o ∈ after, o.isRefused = false →
      KeepsClear base folder (logPath folder entry.name) o.1

/-- Teams have the same outcomes with and without a team before them that does not start. -/
theorem outcomes_of_failed {fault : EntryFault} {after : List TeamEntry}
    (h : (tryEntry publishes config seed state.1 state.2 entry).2.2 = .error fault)
    (hsprung : base.IsTree → Sprung base state.1.host.files)
    (hclear : OutOfTheWay config base entry fault
      (outcomes publishes config seed (addEntry publishes config seed state.1 state.2 entry) after)) :
    outcomes publishes config seed (addEntry publishes config seed state.1 state.2 entry) after =
      outcomes publishes config seed state after := by
  obtain ⟨hmembers, -, hhost, -⟩ := addEntry_hub publishes config seed state entry h
  have hmembers := hmembers.trans (List.append_nil _)
  rcases tryEntry_error h with hsame | ⟨error, folder, files, hfault, hfolder, hopened, hfiles⟩
  · have hpaired : Paired (· = ·) state (addEntry publishes config seed state.1 state.2 entry) := by
      refine ⟨hmembers, ?_, ?_, resolve_addEntry entry⟩
      · rw [hhost, hsame]
      · rw [hhost, hsame]
    exact hpaired.outcomes fun o _ _ => startsAlike_eq publishes config o.1
  · obtain ⟨htree, hlater⟩ := hclear error folder hfault hfolder
    have hsprung := hsprung htree
    have hsurplus := Files.surplus_tryOpen hsprung.tree hsprung.grows (logPath folder entry.name)
      config.telemetry.minLevel
    rw [← hfiles] at hsurplus
    have hpaired : Paired (Files.Surplus (logPath folder entry.name) base) state
        (addEntry publishes config seed state.1 state.2 entry) := by
      refine ⟨hmembers, ?_, ?_, resolve_addEntry entry⟩
      · rw [hhost, hopened]
      · rw [hhost, hopened]
        exact hsurplus
    exact hpaired.outcomes fun o ho hcame => startsAlike_surplus hfolder (hlater o ho hcame)

/-! ### Configurations -/

section

variable (config : ProgramConfig) (publishes : Bool) (host : Host) (seed : Nat)

/-- What becomes of the teams of a configuration. -/
def starts : List Outcome :=
  outcomes publishes config seed ({ host }, .ofSources host.files config.profiles) config.teams

theorem ofConfig_eq : ofConfig config publishes host seed =
    (begun publishes config seed ({ host }, .ofSources host.files config.profiles) config.teams).1 :=
  addEntries_eq publishes config seed ({ host }, _) config.teams

/-- What a configuration says of other teams plays no part in starting some. -/
theorem outcomes_of_teams (teams : List TeamEntry) (state : Hub × Catalogue) (entries : List TeamEntry) :
    outcomes publishes { config with teams } seed state entries =
      outcomes publishes config seed state entries := by
  induction entries generalizing state with
  | nil => rfl
  | cons entry rest ih =>
      rw [outcomes, outcomes]
      exact congrArg _ (ih _)

variable {config publishes host seed}

theorem starts_without {before after : List Outcome} {fault : EntryFault}
    (h : starts config publishes host seed = before ++ (entry, .error fault) :: after)
    (hclear : OutOfTheWay config host.files entry fault after) :
    starts { config with teams := (before ++ after).map (·.1) } publishes host seed =
      before ++ after := by
  have hteams : config.teams = before.map (·.1) ++ entry :: after.map (·.1) := by
    have hmap := map_outcomes publishes config seed ({ host }, .ofSources host.files config.profiles)
      config.teams
    rw [← hmap]
    refine (congrArg (List.map _) h).trans ?_
    rw [List.map_append, List.map_cons]
  rw [starts, hteams, outcomes_append] at h
  have hlength := congrArg List.length (map_outcomes publishes config seed
    ({ host }, .ofSources host.files config.profiles) (before.map (·.1)))
  rw [List.length_map, List.length_map] at hlength
  obtain ⟨hbefore, hrest⟩ := List.append_inj h hlength
  rw [outcomes] at hrest
  obtain ⟨hfailed, hafter⟩ := List.cons.inj hrest
  have hsprung : host.files.IsTree → Sprung host.files (begun publishes config seed
      ({ host }, .ofSources host.files config.profiles) (before.map (·.1))).1.host.files :=
    fun htree => Sprung.begun ⟨.refl host.files, htree⟩
  rw [← hafter] at hclear
  rw [starts, outcomes_of_teams, List.map_append, outcomes_append, hbefore,
    ← outcomes_of_failed (Prod.mk.inj hfailed).2 hsprung hclear, hafter]

end

/-- **Startup.** Every declared team, by its position, runs as declared or is on record with what went
wrong; the running teams have distinct names and stand in the order of their declarations. If a team that
did not start is taken out, all others come to the same as before, provided that those behind it keep clear
of what it left behind. -/
theorem starts_isolated (config : ProgramConfig) (publishes : Bool) (host : Host) (seed : Nat) :
    (starts config publishes host seed).map (·.1) = config.teams ∧
      (ofConfig config publishes host seed).members =
        (starts config publishes host seed).filterMap Outcome.member? ∧
      (ofConfig config publishes host seed).failed =
        (starts config publishes host seed).filterMap Outcome.failed? ∧
      (∀ entry m, (entry, .ok m) ∈ starts config publishes host seed →
        Fits config (.ofSources host.files config.profiles) entry m) ∧
      (ofConfig config publishes host seed).names.Nodup ∧
      (ofConfig config publishes host seed).names.Sublist (config.teams.map (·.name)) ∧
      ∀ before entry fault after,
        starts config publishes host seed = before ++ (entry, .error fault) :: after →
        OutOfTheWay config host.files entry fault after →
          starts { config with teams := (before ++ after).map (·.1) } publishes host seed =
            before ++ after ∧
          (ofConfig { config with teams := (before ++ after).map (·.1) } publishes host seed).members =
            (ofConfig config publishes host seed).members ∧
          (ofConfig { config with teams := (before ++ after).map (·.1) } publishes host seed).failed =
            (before ++ after).filterMap Outcome.failed? := by
  have hread (config : ProgramConfig) :
      (ofConfig config publishes host seed).members =
          (starts config publishes host seed).filterMap Outcome.member? ∧
        (ofConfig config publishes host seed).failed =
          (starts config publishes host seed).filterMap Outcome.failed? := by
    rw [ofConfig_eq]
    exact begun_eq publishes config seed ({ host }, _) config.teams
  obtain ⟨hmembers, hfailed⟩ := hread config
  have hteams := map_outcomes publishes config seed ({ host }, .ofSources host.files config.profiles)
    config.teams
  have hfits : ∀ entry m, (entry, .ok m) ∈ starts config publishes host seed →
      Fits config (.ofSources host.files config.profiles) entry m :=
    fun entry m => fits_of_mem fun _ => rfl
  refine ⟨hteams, hmembers, hfailed, hfits, ?_, ?_, ?_⟩
  · rw [ofConfig_eq]
    exact nodup_begun List.nodup_nil
  · have hsublist := names_sublist hfits
    rw [← hmembers] at hsublist
    have hnames : (starts config publishes host seed).map (fun o => o.1.name) =
        config.teams.map (·.name) := by
      rw [← congrArg (List.map TeamEntry.name) hteams, List.map_map]
      rfl
    rwa [hnames] at hsublist
  · intro before entry fault after hstarts hclear
    have hothers := starts_without hstarts hclear
    obtain ⟨hmembers', hfailed'⟩ :=
      hread { config with teams := (before ++ after).map (·.1) }
    rw [hothers] at hmembers' hfailed'
    refine ⟨hothers, ?_, hfailed'⟩
    calc (ofConfig { config with teams := (before ++ after).map (·.1) } publishes host seed).members
      _ = before.filterMap Outcome.member? ++ after.filterMap Outcome.member? :=
          hmembers'.trans List.filterMap_append
      _ = (before ++ (entry, .error fault) :: after).filterMap Outcome.member? := by
          rw [List.filterMap_append]
          rfl
      _ = (ofConfig config publishes host seed).members := by rw [hmembers, hstarts]

/-! ### A team that does not start -/

/-- A configuration with a team for a player that there is not, and another team. -/
def haunted (ghost name : String) (macroFile : Option String := none) : ProgramConfig where
  profiles := [.inline { profile := "pad" }]
  telemetry := { logFolder := some "logs" }
  teams := [{ name := ghost, profile := "pad", target := { player := 16 } },
    { name, profile := "pad", macroFile }]

/-- A configuration without its first team. -/
def unhaunted (config : ProgramConfig) : ProgramConfig := { config with teams := config.teams.tail }

/-- The teams that run, and those on record with what went wrong. -/
def told (config : ProgramConfig) (files : Files := {}) : List String × List (String × String) :=
  ((ofConfig config true { files } 0).names,
    (ofConfig config true { files } 0).failed.map fun failed => (failed.name, failed.error))

theorem keepsClear_red : KeepsClear {} "logs" (logPath "logs" "ghost")
    { name := "red", profile := "pad", macroFile := some "pads/red.json" } where
  log := ⟨⟨Files.isTree_of_entries rfl nofun, by decide +kernel⟩, by decide +kernel, by decide +kernel⟩
  sturdy := by
    rintro path ⟨⟩
    exact ⟨Files.isTree_of_entries rfl nofun, by decide +kernel⟩
  folders := by
    rintro path ⟨⟩
    decide +kernel
  file := by
    rintro path ⟨⟩
    decide +kernel

theorem exists_starts_haunted : ∃ fault after,
    starts (haunted "ghost" "red" (some "pads/red.json")) true {} 0 =
      [] ++ ({ name := "ghost", profile := "pad", target := { player := 16 } }, .error fault) :: after :=
  ⟨_, _, rfl⟩

/-- A team runs, with or without another one that wants to play for a player that there is not. -/
theorem starts_isolated_red :
    told (haunted "ghost" "red" (some "pads/red.json")) =
        (["red"], [("ghost", "invalid input target: player_index 16 exceeds 15")]) ∧
      (told (unhaunted (haunted "ghost" "red" (some "pads/red.json")))).1 = ["red"] := by
  have htold : told (haunted "ghost" "red" (some "pads/red.json")) =
      (["red"], [("ghost", "invalid input target: player_index 16 exceeds 15")]) := by
    decide +kernel
  refine ⟨htold, ?_⟩
  obtain ⟨hteams, -, -, -, -, -, hremoved⟩ :=
    starts_isolated (haunted "ghost" "red" (some "pads/red.json")) true {} 0
  obtain ⟨fault, after, hstarts⟩ := exists_starts_haunted
  have hafter : after.map (·.1) =
      [{ name := "red", profile := "pad", macroFile := some "pads/red.json" }] := by
    rw [hstarts] at hteams
    exact (List.cons.inj hteams).2
  have hclear : OutOfTheWay (haunted "ghost" "red" (some "pads/red.json")) {}
      { name := "ghost", profile := "pad", target := { player := 16 } } fault after := by
    rintro error folder - ⟨⟩
    refine ⟨Files.isTree_of_entries rfl nofun, fun o ho _ => ?_⟩
    have hname : o.1 ∈ after.map (·.1) := List.mem_map_of_mem ho
    rw [hafter, List.mem_singleton] at hname
    rw [hname]
    exact keepsClear_red
  have hmembers := (hremoved [] _ fault after hstarts hclear).2.1
  rw [List.nil_append, hafter] at hmembers
  have hnames : (ofConfig (unhaunted (haunted "ghost" "red" (some "pads/red.json"))) true {} 0).names =
      (ofConfig (haunted "ghost" "red" (some "pads/red.json")) true {} 0).names :=
    congrArg (List.map Member.name) hmembers
  rw [told] at htold ⊢
  exact hnames.trans (Prod.mk.inj htold).1

/-- A file that holds nothing, beside the folder of the logs and in it. -/
def blank : Files where
  entries := [(["red.json"], .file ""), (["logs"], .folder), (["logs", "odd"], .file "")]

/-- A log that is made for nothing is in the way if it is the macro file of another team, if a macro file or
a log is in place of a folder around it, if another log needs a folder in its place, and if the folders
around it open the way of a path that leads back. -/
theorem starts_not_isolated :
    (told (haunted "ghost" "red" (some "logs/team_ghost.log")) =
        ([], [("ghost", "invalid input target: player_index 16 exceeds 15"),
          ("red", "macro storage: failed to parse macro file logs/team_ghost.log: " ++
            "not a collection of macros")]) ∧
      told (unhaunted (haunted "ghost" "red" (some "logs/team_ghost.log"))) = (["red"], [])) ∧
    (∀ config ∈ [haunted "x/ghost" "red" (some "logs/team_x"), haunted "red.log/ghost" "red",
        haunted "ghost" "ghost.log/red",
        haunted "x/ghost" "red" (some "logs/team_x/../../red.json")],
      (told config blank).1 = [] ∧ (told (unhaunted config) blank).1 ≠ []) ∧
    (told (haunted "x/ghost" "x/../odd/in/red") blank).2.tail =
        [("x/../odd/in/red", "Not a directory (os error 20)")] ∧
      (told (unhaunted (haunted "x/ghost" "x/../odd/in/red")) blank).2 =
        [("x/../odd/in/red", "File exists (os error 17)")] := by
  decide +kernel

end Hub

end CrowdPad
