import CrowdPad.Proofs.Files.Folders
import CrowdPad.Proofs.Macro.File

/-! What a macro file depends on. Loading and saving it see no more of the files than what stands at its
path, beside it, and on the way there; two trees of files that agree on that much answer alike and go on
agreeing, and what is written elsewhere does not touch it. -/

namespace CrowdPad

namespace MacroFile

variable {fs fs' : Files} {path parent name other content : String} {file : MacroFile}

/-! ### Macro files and their paths -/

/-- The folder around a macro file, its name, and the name of the file that is written first. -/
structure Split (path parent name other : String) : Prop where
  around : Path.parent? path = some parent
  absolute : Path.isAbsolute parent = Path.isAbsolute path
  absolute' : Path.isAbsolute (staging path) = Path.isAbsolute path
  leads : Path.leads name
  leads' : Path.leads other
  up : name ≠ ".."
  up' : other ≠ ".."
  differ : other ≠ name
  parts : Path.parts path.toList = Path.parts parent.toList ++ [name]
  parts' : Path.parts (staging path).toList = Path.parts parent.toList ++ [other]

theorem exists_split (h : (Path.fileName? path).isSome) : ∃ parent name other,
    Split path parent name other := by
  obtain ⟨name, hname⟩ := Option.isSome_iff_exists.mp h
  obtain ⟨-, -, hleads, hup, -⟩ := Path.fileName?_eq_some hname
  obtain ⟨around, other, hleads', hup', hdiffer, hparts, hparts', habsolute'⟩ :=
    Path.withExtension_parts hname
  cases hparent : Path.parent? path with
  | none =>
      have hnone := Path.parts_of_no_parent hparent
      rw [hparts] at hnone
      exact absurd hnone (List.concat_ne_nil name around)
  | some parent =>
      obtain ⟨habsolute, ⟨-, hnone⟩ | ⟨last, -, hlast⟩⟩ := Path.parent?_cases hparent
      · rw [hparts] at hnone
        exact absurd hnone (List.concat_ne_nil name around)
      · have haround : around = Path.parts parent.toList :=
          (List.append_inj' (hparts.symm.trans hlast) rfl).1
        subst haround
        exact ⟨parent, name, other, hparent, habsolute, habsolute', hleads, hleads', hup, hup', hdiffer,
          hparts, hparts'⟩

variable (hsplit : Split path parent name other)

include hsplit

theorem Split.origin (fs : Files) : fs.origin parent = fs.origin path := by
  rw [Files.origin, Files.origin, hsplit.absolute]

theorem Split.origin' (fs : Files) : fs.origin (staging path) = fs.origin path := by
  rw [Files.origin, Files.origin, hsplit.absolute']

theorem Split.spot (fs : Files) : fs.spot path = fs.spot parent ++ [name] := by
  rw [Files.spot_of_parts hsplit.parts hsplit.leads hsplit.up, Files.spot_eq_lands, hsplit.origin]

theorem Split.spot' (fs : Files) : fs.spot (staging path) = fs.spot parent ++ [other] := by
  rw [Files.spot_of_parts hsplit.parts' hsplit.leads' hsplit.up', Files.spot_eq_lands, hsplit.origin',
    hsplit.origin]

theorem Split.way (fs : Files) : fs.way path = fs.way parent ++ [fs.spot path] := by
  rw [hsplit.spot, Files.way_eq_passes, hsplit.parts, (Files.way_append _ _ _).1, Files.way_eq_passes,
    hsplit.origin, Files.passes_name hsplit.leads hsplit.up, Files.spot_eq_lands, hsplit.origin]
  rfl

theorem Split.way' (fs : Files) : fs.way (staging path) = fs.way parent ++ [fs.spot (staging path)] := by
  rw [hsplit.spot', Files.way_eq_passes, hsplit.parts', (Files.way_append _ _ _).1, Files.way_eq_passes,
    hsplit.origin', hsplit.origin, Files.passes_name hsplit.leads' hsplit.up', Files.spot_eq_lands,
    hsplit.origin]
  rfl

theorem Split.spot_ne (fs : Files) : fs.spot (staging path) ≠ fs.spot path := by
  rw [hsplit.spot, hsplit.spot']
  intro hsame
  exact hsplit.differ (List.singleton_inj.mp (List.append_inj' hsame rfl).2)

omit hsplit

/-! ### What is seen of the files -/

/-- What stands at the path of a macro file, beside it, and in the way. -/
@[ext]
structure Standing where
  home : List String
  /-- What the path leads to. -/
  seen : Option FileEntry
  there : Option FileEntry
  beside : Option FileEntry
  /-- What keeps folders from being made around. -/
  blocked : Option FileFault

def standing (path : String) (fs : Files) : Standing where
  home := fs.home
  seen := fs.at? path
  there := fs.entry? (fs.spot path)
  beside := fs.entry? (fs.spot (staging path))
  blocked := fs.blocked? (fs.origin path) (Path.parts ((Path.parent? path).getD "").toList)

theorem standing_home (path : String) (fs : Files) : (standing path fs).home = fs.home := by
  rw [standing]

theorem standing_seen (path : String) (fs : Files) : (standing path fs).seen = fs.at? path := by
  rw [standing]

theorem standing_there (path : String) (fs : Files) :
    (standing path fs).there = fs.entry? (fs.spot path) := by
  rw [standing]

theorem standing_beside (path : String) (fs : Files) :
    (standing path fs).beside = fs.entry? (fs.spot (staging path)) := by
  rw [standing]

/-- Whether two trees have the folder of a macro file, and the same in it at the places that are
written. -/
structure Abreast (path parent : String) (fs fs' : Files) : Prop where
  tree : fs.IsTree
  tree' : fs'.IsTree
  home : fs'.home = fs.home
  opens : fs.Opens (fs.origin path) (Path.parts parent.toList)
  opens' : fs'.Opens (fs.origin path) (Path.parts parent.toList)
  there : fs'.entry? (fs.spot path) = fs.entry? (fs.spot path)
  beside : fs'.entry? (fs.spot (staging path)) = fs.entry? (fs.spot (staging path))

section Abreast

variable {g g' : Files} {place : List String} (hsplit : Split path parent name other)

include hsplit

/-- The same change at one of the places. -/
theorem Abreast.change (h : Abreast path parent fs fs')
    (hplace : place = fs.spot path ∨ place = fs.spot (staging path))
    (hbefore : fs.entry? place ≠ some .folder) (hdiffers : Files.Differs place fs g)
    (hdiffers' : Files.Differs place fs' g') (hnew : g'.entry? place = g.entry? place) :
    Abreast path parent g g' := by
  have horigin := Files.origin_of_home hdiffers.home
  have hspot := Files.spot_of_home hdiffers.home
  have hbefore' : fs'.entry? place ≠ some .folder := by
    rcases hplace with rfl | rfl
    · rw [h.there]
      exact hbefore
    · rw [h.beside]
      exact hbefore
  have hlands := hsplit.origin fs
  have haround : place.dropLast = Files.lands (fs.origin path) (Path.parts parent.toList) := by
    rcases hplace with rfl | rfl
    · rw [hsplit.spot, List.dropLast_concat, Files.spot_eq_lands, hlands]
    · rw [hsplit.spot', List.dropLast_concat, Files.spot_eq_lands, hlands]
  have hfolder := h.opens.lands h.tree (h.tree.origin path)
  have hfolder' := h.opens'.lands h.tree' (Files.origin_of_home h.home path ▸ h.tree'.origin path)
  have hentry (other : List String) (hsame : fs'.entry? other = fs.entry? other) :
      g'.entry? other = g.entry? other := by
    by_cases hat : other = place
    · rw [hat, hnew]
    · rw [hdiffers'.elsewhere other hat, hdiffers.elsewhere other hat, hsame]
  constructor
  · exact h.tree.of_differs hdiffers hbefore fun _ => haround ▸ hfolder
  · exact h.tree'.of_differs hdiffers' hbefore' fun _ => haround ▸ hfolder'
  · rw [hdiffers.home, hdiffers'.home, h.home]
  · rw [horigin]
    exact fun other hother => hdiffers.folder_stays hbefore (h.opens other hother)
  · rw [horigin]
    exact fun other hother => hdiffers'.folder_stays hbefore' (h.opens' other hother)
  · rw [hspot]
    exact hentry _ h.there
  · rw [hspot]
    exact hentry _ h.beside

/-- Both trees take or refuse the file that is written first. -/
theorem Abreast.write (h : Abreast path parent fs fs') (content : String) :
    (∃ fault, fs.write (staging path) content = .error fault ∧
      fs'.write (staging path) content = .error fault) ∨
    fs.entry? (fs.spot (staging path)) ≠ some .folder ∧
      fs.write (staging path) content = .ok (fs.put (fs.spot (staging path)) (.file content)) ∧
      fs'.write (staging path) content = .ok (fs'.put (fs.spot (staging path)) (.file content)) := by
  have hopens : fs.Opens (fs.origin (staging path)) (Path.parts parent.toList) :=
    hsplit.origin' fs ▸ h.opens
  obtain ⟨hcases, hsame⟩ := Files.place_of_opens hsplit.parts' hsplit.leads' hsplit.up' hopens
  have hplace' := hsame fs' (hsplit.origin' fs ▸ h.opens') h.home h.beside
  rcases hcases with hplace | ⟨fault, hplace⟩
  · rw [hplace] at hplace'
    rw [Files.write, Files.write, Files.modify, Files.modify, hplace, hplace']
    simp only [bind, Except.bind, h.beside]
    split
    · rename_i hfile
      rw [hfile]
      exact .inr ⟨nofun, rfl, rfl⟩
    · exact .inl ⟨_, rfl, rfl⟩
    · rename_i hfree
      rw [hfree]
      split
      · exact .inl ⟨_, rfl, rfl⟩
      · exact .inr ⟨nofun, rfl, rfl⟩
  · rw [hplace] at hplace'
    rw [Files.write, Files.write, Files.modify, Files.modify, hplace, hplace']
    exact .inl ⟨fault, rfl, rfl⟩

/-- Both trees let the file that was written first take the place of the macro file, or refuse it. -/
theorem Abreast.rename (h : Abreast path parent fs fs')
    (hwritten : fs.entry? (fs.spot (staging path)) = some (.file content)) :
    (∃ fault, fs.rename (staging path) path = .error fault ∧
      fs'.rename (staging path) path = .error fault) ∨
    fs.entry? (fs.spot path) ≠ some .folder ∧
      fs.rename (staging path) path =
        .ok ((fs.drop (fs.spot (staging path))).put (fs.spot path) (.file content)) ∧
      fs'.rename (staging path) path =
        .ok ((fs'.drop (fs.spot (staging path))).put (fs.spot path) (.file content)) := by
  have hopens : fs.Opens (fs.origin (staging path)) (Path.parts parent.toList) :=
    hsplit.origin' fs ▸ h.opens
  obtain ⟨hsource, hsame⟩ := Files.place_of_opens hsplit.parts' hsplit.leads' hsplit.up' hopens
  obtain ⟨hgoal, hsame'⟩ := Files.place_of_opens hsplit.parts hsplit.leads hsplit.up h.opens
  have hsource' := hsame fs' (hsplit.origin' fs ▸ h.opens') h.home h.beside
  have hgoal' := hsame' fs' h.opens' h.home h.there
  rcases hsource with hsource | ⟨fault, hsource⟩
  · rw [hsource] at hsource'
    rcases hgoal with hgoal | ⟨fault, hgoal⟩
    · rw [hgoal] at hgoal'
      rw [Files.rename, Files.rename, hsource, hsource', hgoal, hgoal']
      simp only [bind, Except.bind, h.beside, h.there, hwritten]
      split
      · exact .inl ⟨_, rfl, rfl⟩
      · split
        · exact .inl ⟨_, rfl, rfl⟩
        · rename_i hbefore
          exact .inr ⟨hbefore, rfl, rfl⟩
    · rw [hgoal] at hgoal'
      rw [Files.rename, Files.rename, hsource, hsource', hgoal, hgoal']
      exact .inl ⟨fault, rfl, rfl⟩
  · rw [hsource] at hsource'
    rw [Files.rename, Files.rename, hsource, hsource']
    exact .inl ⟨fault, rfl, rfl⟩

/-- A file is moved to the place of the macro file in both trees. -/
theorem Abreast.moved (h : Abreast path parent fs fs')
    (hwritten : fs.entry? (fs.spot (staging path)) = some (.file content))
    (hgoal : fs.entry? (fs.spot path) ≠ some .folder) : Abreast path parent
      ((fs.drop (fs.spot (staging path))).put (fs.spot path) (.file content))
      ((fs'.drop (fs.spot (staging path))).put (fs.spot path) (.file content)) := by
  have hbefore : fs.entry? (fs.spot (staging path)) ≠ some .folder := Files.ne_folder_of_file hwritten
  have hdrop := Files.entry?_drop fs (Files.ne_nil_of_entry?_ne hbefore)
  have hdrop' := Files.entry?_drop fs' (Files.ne_nil_of_entry?_ne hbefore)
  have hdropped := h.change hsplit (.inr rfl) hbefore (Files.differs_drop _ fs)
    (Files.differs_drop _ fs') (hdrop'.trans hdrop.symm)
  have hgoal' : Files.entry? (fs.drop (fs.spot (staging path))) (fs.spot path) ≠ some .folder := by
    rw [(Files.differs_drop _ fs).elsewhere _ (hsplit.spot_ne fs).symm]
    exact hgoal
  have hne := Files.ne_nil_of_entry?_ne hgoal
  exact hdropped.change hsplit (.inl rfl) hgoal' (Files.differs_put _ _ _) (Files.differs_put _ _ _)
    ((Files.entry?_put _ hne _).trans (Files.entry?_put _ hne _).symm)

/-- With the folder there, saving ends alike, and leaves the same at the places that were written. -/
theorem Abreast.save (h : Abreast path parent fs fs') (hroom : makeRoom g path = (fs, .ok ()))
    (hroom' : makeRoom g' path = (fs', .ok ())) (file : MacroFile) :
    (MacroFile.save g path file).2 = (MacroFile.save g' path file).2 ∧
      Abreast path parent (MacroFile.save g path file).1 (MacroFile.save g' path file).1 := by
  rw [MacroFile.save, MacroFile.save, hroom, hroom']
  simp only
  rcases h.write hsplit (Json.pretty file.toValue) with
    ⟨fault, hwrite, hwrite'⟩ | ⟨hbefore, hwrite, hwrite'⟩
  · rw [hwrite, hwrite']
    exact ⟨rfl, h⟩
  · rw [hwrite, hwrite']
    have hne := Files.ne_nil_of_entry?_ne hbefore
    have hput := Files.entry?_put fs hne (.file (Json.pretty file.toValue))
    have hput' := Files.entry?_put fs' hne (.file (Json.pretty file.toValue))
    have hwritten := h.change hsplit (.inr rfl) hbefore (Files.differs_put _ _ fs)
      (Files.differs_put _ _ fs') (hput'.trans hput.symm)
    simp only
    rcases hwritten.rename hsplit hput with ⟨fault, hrename, hrename'⟩ | ⟨hgoal, hrename, hrename'⟩
    · rw [hrename, hrename']
      exact ⟨rfl, hwritten⟩
    · rw [hrename, hrename']
      refine ⟨rfl, hwritten.moved hsplit hput hgoal⟩

end Abreast

/-! ### What loading and saving see -/

section

variable (hsplit : Split path parent name other)

include hsplit

theorem blocked_standing (fs : Files) : (standing path fs).blocked =
    fs.blocked? (fs.origin parent) (Path.parts parent.toList) := by
  rw [standing, hsplit.around, hsplit.origin, Option.getD_some]

/-- Where a file is in the way nothing is saved. -/
theorem save_of_blocked (h : fs.Sturdy path) {fault : FileFault}
    (hblocked : (standing path fs).blocked = some fault) (file : MacroFile) :
    save fs path file = (fs, .error (.create parent fault)) := by
  rw [blocked_standing hsplit] at hblocked
  have hstays : fs.climbs (fs.origin parent) (Path.parts parent.toList) = false := by
    have hstays := h.stays_parts
    rw [hsplit.parts] at hstays
    rw [hsplit.origin]
    exact Files.not_climbs_of_append hstays
  have hmade := Files.makeFoldersAround_of_blocked h.tree parent.length (Path.trim_parent? hsplit.around)
    hstays hblocked
  rw [save, makeRoom, hsplit.around]
  simp only [Files.makeFolders, hmade]
  rfl

/-- Where no file is in the way, the folder is made, and nothing else changes. -/
theorem exists_makeRoom (h : fs.Sturdy path) (hopen : (standing path fs).blocked = none) : ∃ g,
    makeRoom fs path = (g, .ok ()) ∧ g.IsTree ∧ g.home = fs.home ∧
      g.Opens (fs.origin path) (Path.parts parent.toList) ∧
      g.entry? (fs.spot path) = fs.entry? (fs.spot path) ∧
      g.entry? (fs.spot (staging path)) = fs.entry? (fs.spot (staging path)) := by
  rw [blocked_standing hsplit, Files.blocked?_eq_none_iff fun _ => Files.leads_of_mem_parts,
    ← Files.way_eq_passes] at hopen
  obtain ⟨g, hmade, hopens, hfurnishes⟩ := Files.canFurnish h.tree parent.length
    (Path.trim_parent? hsplit.around) le_rfl hopen
  have htree : g.IsTree := by
    have hkept := h.tree.makeFoldersAround parent.length parent
    rwa [hmade] at hkept
  have hstays : fs.climbs (fs.origin parent) (Path.parts parent.toList ++ [name]) = false := by
    have hstays := h.stays_parts
    rw [hsplit.parts, ← hsplit.origin] at hstays
    exact hstays
  have hkept (last : String) :
      g.entry? (fs.spot parent ++ [last]) = fs.entry? (fs.spot parent ++ [last]) := by
    refine (hfurnishes.entry _).resolve_right ?_
    rintro ⟨hmem, hfree, -⟩
    rw [Files.way_eq_passes] at hmem hopen
    rw [Files.spot_eq_lands] at hmem hfree
    exact Files.ne_of_free hstays hopen hfree hmem rfl
  refine ⟨g, ?_, htree, hfurnishes.home, hsplit.origin fs ▸ hopens, ?_, ?_⟩
  · rw [makeRoom, hsplit.around]
    simp only [Files.makeFolders, hmade]
    rfl
  · rw [hsplit.spot]
    exact hkept name
  · rw [hsplit.spot']
    exact hkept other

theorem blocked_of_opens (hopens : fs.Opens (fs.origin path) (Path.parts parent.toList)) :
    (standing path fs).blocked = none := by
  rw [blocked_standing hsplit, hsplit.origin,
    Files.blocked?_eq_none_iff fun _ => Files.leads_of_mem_parts]
  exact fun place hplace => Files.holdsFile_eq_false (.inr (hopens place hplace))

theorem Abreast.standing (h : Abreast path parent fs fs') (hseen : fs'.at? path = fs.at? path) :
    MacroFile.standing path fs' = MacroFile.standing path fs := by
  have hspot := Files.spot_of_home h.home
  have hblocked := blocked_of_opens hsplit h.opens
  have hblocked' := blocked_of_opens hsplit (Files.origin_of_home h.home path ▸ h.opens')
  apply Standing.ext
  · rw [standing_home, standing_home]
    exact h.home
  · rw [standing_seen, standing_seen]
    exact hseen
  · rw [standing_there, standing_there, hspot]
    exact h.there
  · rw [standing_beside, standing_beside, hspot]
    exact h.beside
  · exact hblocked'.trans hblocked.symm

end

/-- With the same standing of a macro file the folder is made in both trees, or in none. -/
theorem exists_abreast (hsplit : Split path parent name other) (h : fs.Sturdy path)
    (h' : fs'.Sturdy path) (hsame : standing path fs' = standing path fs)
    (hopen : (standing path fs).blocked = none) : ∃ g g',
      makeRoom fs path = (g, .ok ()) ∧ makeRoom fs' path = (g', .ok ()) ∧ Abreast path parent g g' := by
  have hopen' : (standing path fs').blocked = none := (congrArg Standing.blocked hsame).trans hopen
  have hhome := congrArg Standing.home hsame
  have hthere := congrArg Standing.there hsame
  have hbeside := congrArg Standing.beside hsame
  rw [standing_home, standing_home] at hhome
  rw [standing_there, standing_there] at hthere
  rw [standing_beside, standing_beside] at hbeside
  obtain ⟨g, hroom, htree, hg, hopens, hg₁, hg₂⟩ := exists_makeRoom hsplit h hopen
  obtain ⟨g', hroom', htree', hg', hopens', hg₁', hg₂'⟩ := exists_makeRoom hsplit h' hopen'
  have hspot := Files.spot_of_home hhome
  rw [Files.origin_of_home hhome] at hopens'
  rw [hthere, hspot] at hg₁'
  rw [hbeside, hspot] at hg₂'
  refine ⟨g, g', hroom, hroom', htree, htree', hg'.trans (hhome.trans hg.symm), ?_, ?_, ?_, ?_⟩
  · rw [Files.origin_of_home hg]
    exact hopens
  · rw [Files.origin_of_home hg]
    exact hopens'
  · rw [Files.spot_of_home hg]
    exact hg₁'.trans hg₁.symm
  · rw [Files.spot_of_home hg]
    exact hg₂'.trans hg₂.symm

/-- **What saving sees.** Two trees with the same standing of a macro file save it alike, and are left
with the same standing. -/
theorem save_alike (hname : (Path.fileName? path).isSome) (h : fs.Sturdy path) (h' : fs'.Sturdy path)
    (hsame : standing path fs' = standing path fs) (file : MacroFile) :
    (save fs' path file).2 = (save fs path file).2 ∧
      standing path (save fs' path file).1 = standing path (save fs path file).1 ∧
      (save fs path file).1.Sturdy path ∧ (save fs' path file).1.Sturdy path := by
  obtain ⟨parent, name, other, hsplit⟩ := exists_split hname
  cases hblocked : (standing path fs).blocked with
  | some fault =>
      have hblocked' := (congrArg Standing.blocked hsame).trans hblocked
      rw [save_of_blocked hsplit h hblocked, save_of_blocked hsplit h' hblocked']
      exact ⟨rfl, hsame, h, h'⟩
  | none =>
      obtain ⟨g, g', hroom, hroom', habreast⟩ := exists_abreast hsplit h h' hsame hblocked
      obtain ⟨hresult, hend⟩ := habreast.save hsplit hroom hroom' file
      rcases hsave : save fs path file with ⟨k, fault | done⟩
      · rcases hsave' : save fs' path file with ⟨k', fault' | done'⟩
        · have hleaves := leaves_save h hsave
          have hleaves' := leaves_save h' hsave'
          rw [hsave, hsave'] at hresult hend
          have hseen : k'.at? path = k.at? path := by
            have hsaw := congrArg Standing.seen hsame
            rw [standing_seen, standing_seen] at hsaw
            rw [hleaves.same, hleaves'.same, hsaw]
          exact ⟨hresult.symm, hend.standing hsplit hseen, hleaves.sturdy h, hleaves'.sturdy h'⟩
        · rw [hsave, hsave'] at hresult
          cases hresult
      · rcases hsave' : save fs' path file with ⟨k', fault' | done'⟩
        · rw [hsave, hsave'] at hresult
          cases hresult
        · obtain ⟨hsturdy, hseen⟩ := save_eq_ok h.tree hsave
          obtain ⟨hsturdy', hseen'⟩ := save_eq_ok h'.tree hsave'
          rw [hsave, hsave'] at hend
          exact ⟨rfl, hend.standing hsplit (hseen'.trans hseen.symm), hsturdy, hsturdy'⟩

/-- What is loaded depends on the standing alone. -/
theorem load_alike (hsame : standing path fs' = standing path fs) : load fs' path = load fs path :=
  load_congr (congrArg Standing.seen hsame)

end MacroFile

end CrowdPad
