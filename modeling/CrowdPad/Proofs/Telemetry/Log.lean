import CrowdPad.Hub.Basic
import CrowdPad.Proofs.Files.Surplus

/-! Opening logs. Whatever becomes of it, opening a log leaves no more behind than folders around its file
and the file, which is empty if it is new; a log that keeps away from what another one left behind opens
alike with and without that. -/

namespace CrowdPad

/-! ### Paths of logs -/

theorem Hub.ofFile_logPath (folder name : String) : Path.OfFile (logPath folder name) := by
  have hname (before : String) : (before ++ ".log").toList.getLast? = some 'g' :=
    Path.getLast?_append_of before rfl
  have hlast : (logPath folder name).toList.getLast? = some 'g' := by
    rw [logPath, Path.join]
    split
    · exact hname _
    · split
      · exact Path.getLast?_append_of _ (hname _)
      · exact Path.getLast?_append_of _ (hname _)
  exact Path.ofFile_of_getLast? hlast (by decide) (by decide)

namespace Files

variable {base fs fs' g g' : Files} {place : List String} {path content : String}

/-! ### Adding to a file -/

/-- What a file holds once something was added to what stands at its place. -/
def extended (content : String) : Option FileEntry → Except FileFault String
  | some (.file old) => .ok (old ++ content)
  | some .folder => .error .isAFolder
  | none => .ok content

theorem append_of_place (hplace : fs.place path = .ok place) (hslash : Path.endsInSlash path = false)
    (content : String) : fs.append path content =
      (extended content (fs.entry? place)).map fun content => fs.put place (.file content) := by
  refine (bind_of_eq_ok hplace _).trans ?_
  cases hentry : fs.entry? place with
  | none => simp [hslash, extended, Except.map, pure, Except.pure]
  | some entry =>
      cases entry with
      | folder => rfl
      | file old => rfl

theorem ne_folder_of_extended (h : extended content (fs.entry? place) = .ok path) :
    fs.entry? place ≠ some .folder := by
  intro hfolder
  rw [hfolder] at h
  cases h

/-- A path whose folder is there leads to its place. -/
theorem place_of_ofFile {parent name other : String} (hfile : Path.OfFile path)
    (hsplit : MacroFile.Split path parent name other)
    (hopens : fs.Opens (fs.origin parent) (Path.parts parent.toList)) :
    fs.place path = .ok (fs.spot path) := by
  rw [hsplit.origin] at hopens
  exact place_of_trim_of_opens hfile.trim hsplit.parts hsplit.leads hsplit.up hopens

/-- The folder around a path does not climb where the path does not. -/
theorem Sturdy.parent {parent name other : String} (h : fs.Sturdy path)
    (hsplit : MacroFile.Split path parent name other) : fs.Sturdy parent := by
  have hstays := h.stays_parts
  rw [hsplit.parts, ← hsplit.origin] at hstays
  refine ⟨h.tree, ?_⟩
  rw [← climbs_filter_leads, ← parts_eq_filter]
  exact not_climbs_of_append hstays

/-! ### What opening a log leaves behind -/

theorem surplus_of_furnishes (htree : fs.IsTree) (htree' : fs'.IsTree) (hgrows : Grows base fs)
    (h : Furnishes (fs.way (Path.around path)) fs fs') : Surplus path base fs fs' := by
  refine ⟨hgrows, hgrows.trans h.grows, htree, htree', fun place => ?_⟩
  refine (h.entry place).imp_right fun ⟨hmem, hfree, hfolder⟩ => ⟨hfree, .inl ⟨?_, hfolder⟩⟩
  rwa [← way_of_home hgrows.home]

/-- An empty file is put where nothing is, and a file that is there stays as it is. -/
theorem Surplus.append (h : Surplus path base fs fs') (happend : fs'.append path "" = .ok g') :
    Surplus path base fs g' := by
  obtain ⟨place, hplace, happend⟩ := exists_of_bind_eq_ok happend
  have hbefore : fs'.entry? place ≠ some .folder := by
    intro hfolder
    simp only [hfolder] at happend
    cases happend
  obtain ⟨rfl, -, haround⟩ := spot_of_place h.tree' hplace hbefore
  rw [spot_of_home h.grows'.home] at *
  have hput (content : String) (hmore : fs.entry? (base.spot path) = some (.file content) ∨
      fs.entry? (base.spot path) = none ∧ content = "") :
      Surplus path base fs (fs'.put (base.spot path) (.file content)) := by
    have hdiffers := differs_put (base.spot path) (.file content) fs'
    refine ⟨h.grows, h.grows'.trans (grows_put hbefore content), h.tree,
      h.tree'.of_differs hdiffers hbefore fun _ => haround, fun other => ?_⟩
    by_cases hsame : other = base.spot path
    · rw [hsame, entry?_put fs' (ne_nil_of_entry?_ne hbefore)]
      rcases hmore with hthere | ⟨hfree, rfl⟩
      · exact .inl hthere.symm
      · exact .inr ⟨hfree, .inr ⟨rfl, rfl⟩⟩
    · rw [hdiffers.elsewhere other hsame]
      exact h.entry other
  cases hentry : fs'.entry? (base.spot path) with
  | none =>
      simp only [hentry] at happend
      have hfree : fs.entry? (base.spot path) = none := by
        rcases h.entry (base.spot path) with hsame | ⟨hfree, -⟩
        · exact hsame.symm.trans hentry
        · exact hfree
      split at happend
      · cases happend
      · cases happend
        exact hput _ (.inr ⟨hfree, rfl⟩)
  | some entry =>
      cases entry with
      | folder => exact absurd hentry hbefore
      | file old =>
          simp only [hentry] at happend
          cases happend
          rw [String.append_empty]
          refine hput old ?_
          rcases h.entry (base.spot path) with hsame | ⟨hfree, ⟨-, hfolder⟩ | ⟨-, hempty⟩⟩
          · exact .inl (hsame.symm.trans hentry)
          · exact absurd hfolder hbefore
          · rw [hempty] at hentry
            cases hentry
            exact .inr ⟨hfree, rfl⟩

theorem surplus_makeFolders (htree : fs.IsTree) (hgrows : Grows base fs) {parent : String}
    (hparent : Path.parent? path = some parent) : Surplus path base fs (fs.makeFolders parent).1 := by
  have haround : Path.around path = parent := by rw [Path.around, hparent, Option.getD_some]
  refine surplus_of_furnishes htree (htree.makeFoldersAround _ parent) hgrows ?_
  rw [haround]
  exact furnishes_makeFoldersAround htree _ parent

theorem surplus_refl (htree : fs.IsTree) (hgrows : Grows base fs) (path : String) :
    Surplus path base fs fs :=
  ⟨hgrows, hgrows, htree, htree, fun _ => .inl rfl⟩

/-- However opening a log ends, no more is left behind than folders and a file that is empty. -/
theorem surplus_tryOpen (htree : fs.IsTree) (hgrows : Grows base fs) (path : String) (minLevel : Level) :
    Surplus path base fs (Log.tryOpen fs path minLevel).1 := by
  rw [Log.tryOpen]
  cases hparent : Path.parent? path with
  | none =>
      have hsame := surplus_refl htree hgrows path
      simp only
      split
      · rename_i happend
        exact hsame.append happend
      · exact hsame
  | some parent =>
      have hmade := surplus_makeFolders htree hgrows hparent
      rcases hresult : fs.makeFolders parent with ⟨g, fault | done⟩
      · rw [hresult] at hmade
        simp only [hresult]
        exact hmade
      · rw [hresult] at hmade
        simp only [hresult]
        split
        · rename_i happend
          exact hmade.append happend
        · exact hmade

/-! ### Opening a log in both trees -/

/-- Whether a path leads to the same file in both trees. -/
def Shared (path : String) (fs fs' : Files) : Prop :=
  ∃ place content, fs.place path = .ok place ∧ fs'.place path = .ok place ∧
    fs.entry? place = some (.file content) ∧ fs'.entry? place = some (.file content)

/-- Whether opening a log keeps away from what opening another one left behind: no folder is needed in
place of the file, and no file in place of a folder. -/
structure Evades (base : Files) (made path : String) : Prop where
  sturdy : base.Sturdy path
  needs : base.spot made ∉ base.way (Path.around path)
  takes : base.spot path ∉ base.way (Path.around made)

variable {made : String}

theorem Surplus.extended_eq (h : Surplus made base fs fs') (haway : place ∉ base.way (Path.around made)) :
    extended "" (fs'.entry? place) = extended "" (fs.entry? place) := by
  rcases h.entry place with hsame | ⟨hfree, ⟨hmem, -⟩ | ⟨-, hempty⟩⟩
  · rw [hsame]
  · exact absurd hmem haway
  · rw [hfree, hempty]
    rfl

/-- With its folder there, a log is opened alike. -/
theorem Surplus.open_append (h : Surplus made base fs fs') {parent name other : String}
    (hfile : Path.OfFile path) (hsplit : MacroFile.Split path parent name other)
    (hopens : fs.Opens (base.origin parent) (Path.parts parent.toList))
    (hopens' : fs'.Opens (base.origin parent) (Path.parts parent.toList))
    (haway : base.spot path ∉ base.way (Path.around made)) :
    (∃ fault, fs.append path "" = .error fault ∧ fs'.append path "" = .error fault) ∨
      ∃ g g', fs.append path "" = .ok g ∧ fs'.append path "" = .ok g' ∧ Surplus made base g g' ∧
        Shared path g g' := by
  rw [← origin_of_home h.grows.home] at hopens
  rw [← origin_of_home h.grows'.home] at hopens'
  have hplace := place_of_ofFile hfile hsplit hopens
  have hplace' := place_of_ofFile hfile hsplit hopens'
  rw [spot_of_home h.grows.home] at hplace
  rw [spot_of_home h.grows'.home] at hplace'
  rw [append_of_place hplace hfile.slash, append_of_place hplace' hfile.slash, h.extended_eq haway]
  cases hextended : extended "" (fs.entry? (base.spot path)) with
  | error fault => exact .inl ⟨fault, rfl, rfl⟩
  | ok content =>
      have hbefore := ne_folder_of_extended hextended
      have hbefore' := ne_folder_of_extended ((h.extended_eq haway).trans hextended)
      have haround : fs.entry? (base.spot path).dropLast = some .folder := by
        rw [hsplit.spot, List.dropLast_concat, ← spot_of_home h.grows.home, spot_eq_lands]
        exact hopens.lands h.tree (h.tree.origin parent)
      have hsurplus := h.put hbefore hbefore' haround content
      have hput := entry?_put fs (ne_nil_of_entry?_ne hbefore) (.file content)
      have hput' := entry?_put fs' (ne_nil_of_entry?_ne hbefore) (.file content)
      have hstays := h.tree.place_of_file (fun _ => (differs_put _ _ fs).folder_stays hbefore) rfl hplace
        hput fun _ => hfile.slash
      have hstays' := h.tree'.place_of_file (fun _ => (differs_put _ _ fs').folder_stays hbefore') rfl
        hplace' hput' fun _ => hfile.slash
      exact .inr ⟨_, _, rfl, rfl, hsurplus, _, content, hstays, hstays', hput, hput'⟩

/-- A log that keeps away opens alike in both trees. -/
theorem Surplus.tryOpen (h : Surplus made base fs fs') (hfile : Path.OfFile path)
    (hevades : base.Evades made path) (minLevel : Level) :
    (∃ fault g g', Log.tryOpen fs path minLevel = (g, .error fault) ∧
      Log.tryOpen fs' path minLevel = (g', .error fault) ∧ Surplus made base g g') ∨
    ∃ g g', Log.tryOpen fs path minLevel = (g, .ok { path, minLevel }) ∧
      Log.tryOpen fs' path minLevel = (g', .ok { path, minLevel }) ∧ Surplus made base g g' ∧
        Shared path g g' := by
  obtain ⟨parent, name, other, hsplit⟩ := MacroFile.exists_split hfile.name
  have haround : Path.around path = parent := by rw [Path.around, hsplit.around, Option.getD_some]
  have hneeds := hevades.needs
  rw [haround] at hneeds
  rw [Log.tryOpen, Log.tryOpen, hsplit.around]
  rcases h.makeFolders (hevades.sturdy.parent hsplit) (Path.trim_parent? hsplit.around) hneeds with
    ⟨fault, hmade, hmade'⟩ | ⟨g, g', hmade, hmade', hsurplus, hopens, hopens'⟩
  · simp only [hmade, hmade']
    exact .inl ⟨fault, fs, fs', rfl, rfl, h⟩
  · simp only [hmade, hmade']
    rcases hsurplus.open_append hfile hsplit hopens hopens' hevades.takes with
      ⟨fault, hadd, hadd'⟩ | ⟨k, k', hadd, hadd', hopened, hshared⟩
    · rw [hadd, hadd']
      exact .inl ⟨fault, g, g', rfl, rfl, hsurplus⟩
    · rw [hadd, hadd']
      exact .inr ⟨k, k', rfl, rfl, hopened, hshared⟩

/-- What is written to a log that both trees have is written alike. -/
theorem Surplus.write (h : Surplus made base fs fs') (log : Log) (hfile : Path.OfFile log.path)
    (hshared : Shared log.path fs fs') (timestamp : String) (r : LogRecord) :
    Surplus made base (log.write fs timestamp r) (log.write fs' timestamp r) := by
  obtain ⟨place, content, hplace, hplace', hentry, hentry'⟩ := hshared
  have hbefore : fs.entry? place ≠ some .folder := ne_folder_of_file hentry
  have hbefore' : fs'.entry? place ≠ some .folder := ne_folder_of_file hentry'
  have haround := (spot_of_place h.tree hplace hbefore).2.2
  rw [Log.write, Log.write, at?_of_place hplace, at?_of_place hplace', hentry, hentry',
    append_of_place hplace hfile.slash, append_of_place hplace' hfile.slash, hentry, hentry']
  split
  · exact h
  · exact h.put hbefore hbefore' haround _

end Files

end CrowdPad
