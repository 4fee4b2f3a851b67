import CrowdPad.Macro.File
import CrowdPad.Proofs.Data.Decode
import CrowdPad.Proofs.Data.Json.Layout
import CrowdPad.Proofs.Files.Sturdy
import CrowdPad.Proofs.Macro.Table

/-! Macro files. What was saved is loaded as it was, and makes the table that it was made of. Where
saving fails, the file is what it was before. -/

namespace CrowdPad

/-! ### Documents -/

namespace Value

theorem toMillis?_nat (ms : UInt32) : (nat ms.toNat).toMillis? = some ms := by
  have hfits : (nat ms.toNat).toNat32? = some ms.toNat := toNat?_nat ms.toNat_lt
  rw [toMillis?, hfits, Option.map_some, Nat.toUInt32_eq, UInt32.ofNat_toNat]

/-- A step is read off its fields. -/
theorem toMacroStep?_of_fields {v delay duration : Value} {verb : String}
    {delayMs durationMs : UInt32}
    (hfields : v.toFields? ["verb", "delay_ms", "duration_ms"] =
      some [some (.text verb), some delay, some duration])
    (hdelay : delay.toMillis? = some delayMs) (hduration : duration.toMillis? = some durationMs) :
    v.toMacroStep? = some { verb, delayMs, durationMs } := by
  rw [toMacroStep?, hfields]
  simp only [Option.bind_eq_bind, Option.bind_some, required, orDefault, toText?, hdelay, hduration,
    Option.pure_def]

theorem toMacroStep?_toValue (step : MacroStep) : step.toValue.toMacroStep? = some step :=
  toMacroStep?_of_fields rfl (toMillis?_nat step.delayMs) (toMillis?_nat step.durationMs)

theorem toStoredMacros?_ofStoredMacros {stored : StoredMacros} (hnames : (stored.map (·.1)).Nodup) :
    (ofStoredMacros stored).toStoredMacros? = some stored := by
  refine toMap?_record (fun steps => list (steps.map MacroStep.toValue)) hnames ?_
  intro entry _
  exact toList?_list fun step _ => toMacroStep?_toValue step

theorem toMacroFile?_toValue {file : MacroFile} (hnames : (file.macros.map (·.1)).Nodup) :
    file.toValue.toMacroFile? = some file := by
  have hfields : file.toValue.toFields? ["name", "macros"] =
      some [some (.text file.name), some (.ofStoredMacros file.macros)] := rfl
  rw [toMacroFile?, hfields]
  simp only [Option.bind_eq_bind, Option.bind_some, orDefault, toText?,
    toStoredMacros?_ofStoredMacros hnames, Option.pure_def]

end Value

theorem MacroFile.isExact_toValue (file : MacroFile) : Json.isExact file.toValue := by
  have hsteps : ∀ steps : List MacroStep, Json.isExact (.list (steps.map MacroStep.toValue)) :=
    Json.areExactItems_map fun _ => rfl
  have hmacros : Json.isExact (.ofStoredMacros file.macros) :=
    Json.areExactFields_map hsteps file.macros
  show (true && (Json.isExact (.ofStoredMacros file.macros) && true)) = true
  rw [hmacros]
  rfl

/-! ### Tables -/

namespace MacroTable

variable {verbs : VerbTable} {limits : MacroLimits} {t : MacroTable}

theorem addSteps_of_made (before : List (String × Macro)) {behind : List (String × Macro)}
    (h : Made verbs limits { entries := before ++ behind }) :
    addSteps verbs limits { entries := before } (behind.map fun entry => (entry.1, entry.2.steps)) =
      ({ entries := before ++ behind }, []) := by
  -- What is still to be added is consumed from the front, and moves to what is in the table.
  induction behind generalizing before with
  | nil => rw [List.append_nil, List.map_nil, addSteps]
  | cons entry rest ih =>
      obtain ⟨name, m⟩ := entry
      have hmem : (name, m) ∈ before ++ (name, m) :: rest := by simp
      have hname : name = m.name := h.named _ hmem
      have hmade : Macro.ofSteps verbs limits name m.steps = .ok m := hname ▸ h.made _ hmem
      have hnew : m.name ∉ before.map (·.1) := by
        have hnodup := h.nodup
        rw [names, List.map_append, List.nodup_append] at hnodup
        intro hbefore
        exact hnodup.2.2 _ hbefore _ (List.mem_cons_self ..) hname.symm
      have hadd : add { entries := before } m = .ok { entries := before ++ [(name, m)] } := by
        rw [add, if_neg (by simpa [names] using hnew), hname]
      rw [List.append_cons] at h ⊢
      rw [List.map_cons, addSteps, bind_of_eq_ok hmade, hadd]
      exact ih _ h

/-- A table is made again of the steps of its macros. -/
theorem Made.ofSteps_toSteps (h : t.Made verbs limits) : (ofSteps verbs limits t.toSteps).1 = t :=
  congrArg Prod.fst (addSteps_of_made [] h)

theorem Made.nodup_toSteps (h : t.Made verbs limits) : (t.toSteps.map (·.1)).Nodup := by
  rw [toSteps, List.map_map]
  exact h.nodup

end MacroTable

/-! ### Files -/

namespace MacroFile

variable {fs fs' : Files} {path content : String} {file : MacroFile}

/-- What is loaded depends on nothing but what the path leads to. -/
theorem load_congr (h : fs'.at? path = fs.at? path) : load fs' path = load fs path := by
  rw [load, load, h]
  split
  · rfl
  · rename_i hsome
    obtain ⟨entry, hentry⟩ := Option.ne_none_iff_exists'.mp (by simpa using hsome)
    rw [Files.read_of_at? hentry, Files.read_of_at? (h.trans hentry)]

theorem load_of_file (hfile : fs.at? path = some (.file (Json.pretty file.toValue)))
    (hnames : (file.macros.map (·.1)).Nodup) : load fs path = .ok file := by
  have hread : (Json.read (Json.pretty file.toValue)).bind Value.toMacroFile? = some file := by
    rw [Json.read_pretty file.isExact_toValue, Option.bind_some]
    exact Value.toMacroFile?_toValue hnames
  rw [load, hfile, if_neg (by simp), Files.read_of_at? hfile, FileEntry.read]
  simp only [hread]

/-- The file that is written first is not the one that is replaced. -/
theorem staging_away (h : fs.Sturdy path) {place : List String}
    (hplace : fs.place (staging path) = .ok place) (hfile : fs.entry? place ≠ some .folder) :
    fs.walk (fs.origin path) (Path.parts path.toList) ≠ .ok place := by
  intro hsame
  have hwalk := Files.walk_parts hplace
  cases hname : Path.fileName? path with
  | none =>
      -- The path leads to a folder, where nothing is written.
      rcases Path.fileName?_eq_none hname with hnone | ⟨around, hparts⟩
      · rw [hnone] at hsame
        cases hsame
        exact hfile (h.tree.origin path)
      · rw [hparts] at hsame
        exact hfile (Files.walk_back h.tree (h.tree.origin path) hsame)
  | some name =>
      -- Both places end in the name that was asked for, and the names differ.
      obtain ⟨-, -, hleads, hup, -⟩ := Path.fileName?_eq_some hname
      obtain ⟨around, other, hleads', hup', hother, hparts, hparts', -⟩ := Path.withExtension_parts hname
      rw [hparts] at hsame
      rw [staging, hparts'] at hwalk
      obtain ⟨before, -, -, hlast⟩ :=
        Files.walk_concat h.tree (h.tree.origin path) hleads hup hsame
      obtain ⟨before', -, -, hlast'⟩ :=
        Files.walk_concat h.tree (h.tree.origin (staging path)) hleads' hup' hwalk
      rw [hlast] at hlast'
      exact hother (List.singleton_inj.mp (List.append_inj' hlast' rfl).2).symm

theorem leaves_makeRoom (h : fs.Sturdy path) : Files.Leaves path fs (makeRoom fs path).1 := by
  rw [makeRoom]
  split
  · rename_i parent hparent
    exact h.leaves_makeFoldersAround _ (Files.within_of_parent? hparent)
  · exact .refl path fs

theorem leaves_staging (h : fs.Sturdy path) (hwrite : fs.write (staging path) content = .ok fs') :
    Files.Leaves path fs fs' := by
  obtain ⟨place, hplace, hbefore, -, rfl⟩ := Files.write_eq_ok hwrite
  have haround := (Files.around_of_walk h.tree (h.tree.origin (staging path))
    (Files.walk_of_place hplace)).resolve_left hbefore
  exact h.leaves_put hbefore haround nofun (staging_away h hplace hbefore)

/-- Where saving fails, the file stays. -/
theorem leaves_save (h : fs.Sturdy path) {fault : StorageFault}
    (hsave : save fs path file = (fs', .error fault)) : Files.Leaves path fs fs' := by
  have hroom := leaves_makeRoom h
  rw [save] at hsave
  split at hsave
  · rename_i hfailed
    cases hsave
    rwa [hfailed] at hroom
  · rename_i hmade
    rw [hmade] at hroom
    split at hsave
    · cases hsave
      exact hroom
    · rename_i hwrite
      split at hsave
      · cases hsave
        exact hroom.trans (leaves_staging (hroom.sturdy h) hwrite)
      · cases hsave

/-- Saving succeeds where its three steps do. -/
theorem save_ok_iff : save fs path file = (fs', .ok ()) ↔ ∃ made written,
    makeRoom fs path = (made, .ok ()) ∧
      made.write (staging path) (Json.pretty file.toValue) = .ok written ∧
      written.rename (staging path) path = .ok fs' := by
  constructor
  · intro hsave
    rw [save] at hsave
    split at hsave
    · cases hsave
    · rename_i made hmade
      split at hsave
      · cases hsave
      · rename_i written hwrite
        split at hsave
        · cases hsave
        · rename_i hrename
          cases hsave
          exact ⟨made, written, hmade, hwrite, hrename⟩
  · rintro ⟨made, written, hmade, hwrite, hrename⟩
    rw [save, hmade]
    simp only [hwrite, hrename]

theorem isTree_makeRoom (h : fs.IsTree) (path : String) : (makeRoom fs path).1.IsTree := by
  rw [makeRoom]
  split
  · exact h.makeFoldersAround _ _
  · exact h

/-- Where saving succeeds, the file is what was saved, however its path climbed before. -/
theorem save_eq_ok (h : fs.IsTree) (hsave : save fs path file = (fs', .ok ())) :
    fs'.Sturdy path ∧ fs'.at? path = some (.file (Json.pretty file.toValue)) := by
  obtain ⟨made, written, hmade, hwrite, hrename⟩ := save_ok_iff.mp hsave
  have hroom := isTree_makeRoom h path
  rw [hmade] at hroom
  exact (hroom.write hwrite).at?_rename (hroom.at?_write hwrite) hrename

/-- What was saved is loaded. -/
theorem load_of_save (h : fs.IsTree) (hnames : (file.macros.map (·.1)).Nodup)
    (hsave : save fs path file = (fs', .ok ())) : load fs' path = .ok file :=
  load_of_file (save_eq_ok h hsave).2 hnames

end MacroFile

end CrowdPad
