import CrowdPad.Proofs.Macro.Standing

/-! What is written beside a macro file. Folders made elsewhere, files written elsewhere and other macro
files leave the standing of a macro file, as long as none of these files is on its way and it is on the
way of none of them. -/

namespace CrowdPad

namespace Files

variable {fs fs' : Files} {place : List String} {path : String}

/-- What a path leads to depends on what stands on its way. -/
theorem at?_congr (htree : fs.IsTree) (htree' : fs'.IsTree) (hhome : fs'.home = fs.home)
    (hsame : ∀ place ∈ fs.way path, fs'.entry? place = fs.entry? place) :
    fs'.at? path = fs.at? path := by
  by_cases hne : path = ""
  · rw [hne]
    rfl
  · have horigin := origin_of_home hhome path
    have hwalk : fs'.place path = fs.place path := by
      rw [place_of_ne hne, place_of_ne hne, horigin]
      exact walk_congr hsame
    cases hplace : fs.place path with
    | error fault => rw [at?, at?, hwalk, hplace]
    | ok place =>
        rw [at?_of_place hplace, at?_of_place (hwalk.trans hplace)]
        have hreached := walk_of_place hplace
        have hreached' := walk_of_place (hwalk.trans hplace)
        -- A place off the way is that of a folder, in both trees.
        by_cases hfolder : fs.entry? place = some .folder
        · by_contra hother
          have hplace' : fs'.entry? place ≠ some .folder := fun hthere =>
            hother (hthere.trans hfolder.symm)
          obtain ⟨-, hmem⟩ := lands_of_walk htree' (htree'.origin path) hreached' hplace'
          rw [horigin] at hmem
          exact hother (hsame place hmem)
        · exact hsame place (lands_of_walk htree (htree.origin path) hreached hfolder).2

theorem modify_eq_ok {change : String → String} (h : fs.modify path change = .ok fs') :
    ∃ place content, fs.place path = .ok place ∧ fs.entry? place ≠ some .folder ∧
      fs' = fs.put place (.file content) := by
  obtain ⟨place, hplace, h⟩ := exists_of_bind_eq_ok h
  split at h
  · rename_i old hfile
    cases h
    exact ⟨place, _, hplace, ne_folder_of_file hfile, rfl⟩
  · cases h
  · rename_i hfree
    split at h
    · cases h
    · cases h
      exact ⟨place, _, hplace, ne_folder_of_none hfree, rfl⟩

/-- What is not a folder is where its path leads by name, in a folder. -/
theorem spot_of_place (htree : fs.IsTree) (hplace : fs.place path = .ok place)
    (hbefore : fs.entry? place ≠ some .folder) :
    place = fs.spot path ∧ place ∈ fs.way path ∧ fs.entry? place.dropLast = some .folder := by
  have hwalk := walk_of_place hplace
  obtain ⟨hspot, hmem⟩ := lands_of_walk htree (htree.origin path) hwalk hbefore
  exact ⟨hspot, hmem, (around_of_walk htree (htree.origin path) hwalk).resolve_left hbefore⟩

/-! ### Where relative paths begin -/

theorem home_modify {change : String → String} (h : fs.modify path change = .ok fs') :
    fs'.home = fs.home := by
  obtain ⟨place, content, -, -, rfl⟩ := modify_eq_ok h
  exact (differs_put place (.file content) fs).home

theorem home_ensureFolder (fs : Files) (path : String) :
    (fs.keep (fs.ensureFolder path)).1.home = fs.home := by
  rw [ensureFolder]
  split
  · rename_i hmade
    obtain ⟨place, -, -, rfl⟩ := createFolder_eq_ok hmade
    exact (differs_put place .folder fs).home
  · split <;> rfl

theorem home_makeFoldersAround (fuel : Nat) (fs : Files) (path : String) :
    (fs.makeFoldersAround fuel path).1.home = fs.home := by
  induction fuel generalizing path with
  | zero =>
      rw [makeFoldersAround]
      split
      · rfl
      · exact home_ensureFolder fs path
  | succ fuel ih =>
      rw [makeFoldersAround]
      split
      · rfl
      · split
        · rename_i parent _ _
          have hmore := ih parent
          split
          · rename_i hmade
            rw [hmade] at hmore
            exact (home_ensureFolder _ path).trans hmore
          · rename_i hmade
            rw [hmade] at hmore
            exact hmore
        · exact home_ensureFolder fs path

theorem home_rename {target : String} (h : fs.rename path target = .ok fs') : fs'.home = fs.home := by
  obtain ⟨source, -, h⟩ := exists_of_bind_eq_ok h
  obtain ⟨goal, -, h⟩ := exists_of_bind_eq_ok h
  have hmoved : ∀ entry, ((fs.drop source).put goal entry).home = fs.home := fun entry =>
    (differs_put goal entry (fs.drop source)).home.trans (differs_drop source fs).home
  cases hsource : fs.entry? source with
  | none =>
      simp only [hsource] at h
      cases h
  | some entry =>
      cases entry with
      | file content =>
          simp only [hsource] at h
          split at h
          · cases h
          · split at h
            · cases h
            · cases h
              exact hmoved _
      | folder =>
          simp only [hsource] at h
          cases h
          exact hmoved _

end Files

namespace MacroFile

variable {fs fs' : Files} {place : List String} {path parent name other : String}

/-- Whether a change leaves the standing of a macro file. -/
def Spares (path : String) (fs fs' : Files) : Prop :=
  fs.Sturdy path → fs'.Sturdy path ∧ standing path fs' = standing path fs

theorem Spares.refl (path : String) (fs : Files) : Spares path fs fs := fun h => ⟨h, rfl⟩

theorem Spares.trans {fs'' : Files} (h : Spares path fs fs') (h' : Spares path fs' fs'') :
    Spares path fs fs'' := by
  intro hsturdy
  obtain ⟨hsturdy', hsame⟩ := h hsturdy
  obtain ⟨hsturdy'', hsame'⟩ := h' hsturdy'
  exact ⟨hsturdy'', hsame'.trans hsame⟩

/-- Whether the file of a path stands neither at a macro file or the one beside it nor on their way. -/
structure Clear (fs : Files) (path q : String) : Prop where
  main : fs.spot q ∉ fs.way path
  beside : fs.spot q ∉ fs.way (staging path)

theorem Clear.of_home {q : String} (h : Clear fs path q) (hhome : fs'.home = fs.home) :
    Clear fs' path q := by
  constructor
  · rw [Files.spot_of_home hhome, Files.way_of_home hhome]
    exact h.main
  · rw [Files.spot_of_home hhome, Files.way_of_home hhome]
    exact h.beside

/-- Whether two macro files are clear of each other, and the first is not on the way of the second. -/
structure Apart (fs : Files) (path q : String) : Prop where
  clear : Clear fs path q
  clearBeside : Clear fs path (staging q)
  main : fs.spot path ∉ fs.way q
  beside : fs.spot (staging path) ∉ fs.way q

theorem Apart.of_home {q : String} (h : Apart fs path q) (hhome : fs'.home = fs.home) :
    Apart fs' path q := by
  refine ⟨h.clear.of_home hhome, h.clearBeside.of_home hhome, ?_, ?_⟩
  · rw [Files.spot_of_home hhome, Files.way_of_home hhome]
    exact h.main
  · rw [Files.spot_of_home hhome, Files.way_of_home hhome]
    exact h.beside

section

variable (hsplit : Split path parent name other)

include hsplit

theorem Split.spot_mem (fs : Files) : fs.spot path ∈ fs.way path := by
  rw [hsplit.way]
  exact List.mem_append_right _ (List.mem_singleton_self _)

theorem Split.spot_mem' (fs : Files) : fs.spot (staging path) ∈ fs.way (staging path) := by
  rw [hsplit.way']
  exact List.mem_append_right _ (List.mem_singleton_self _)

theorem blocked_congr (hhome : fs'.home = fs.home)
    (hsame : ∀ place ∈ fs.way path, fs'.holdsFile place = fs.holdsFile place) :
    (standing path fs').blocked = (standing path fs).blocked := by
  rw [blocked_standing hsplit, blocked_standing hsplit, Files.origin_of_home hhome]
  refine Files.blocked?_congr (fun _ => Files.leads_of_mem_parts) fun place hplace => ?_
  rw [← Files.way_eq_passes] at hplace
  exact hsame place (Files.way_parent?_subset hsplit.around fs hplace)

/-- A folder that is made elsewhere may be on the way, but changes nothing there. -/
theorem spares_put_folder (hfree : fs.entry? place = none)
    (haround : fs.entry? place.dropLast = some .folder) (hmain : place ≠ fs.spot path)
    (hbeside : place ≠ fs.spot (staging path)) : Spares path fs (fs.put place .folder) := by
  intro h
  have hbefore : fs.entry? place ≠ some .folder := Files.ne_folder_of_none hfree
  have hdiffers := Files.differs_put place .folder fs
  have hspot := Files.spot_of_home hdiffers.home
  have haway : fs.walk (fs.origin path) (Path.parts path.toList) ≠ .ok place := by
    intro hwalk
    have hlands := (Files.lands_of_walk h.tree (h.tree.origin path) hwalk hbefore).1
    rw [← Files.spot_eq_lands] at hlands
    exact hmain hlands
  have hleaves : Files.Leaves path fs (fs.put place .folder) :=
    h.leaves_put hbefore haround (fun _ => hfree) haway
  refine ⟨hleaves.sturdy h, ?_⟩
  apply Standing.ext
  · rw [standing_home, standing_home]
    exact hdiffers.home
  · rw [standing_seen, standing_seen]
    exact hleaves.same
  · rw [standing_there, standing_there, hspot]
    exact hdiffers.elsewhere _ (Ne.symm hmain)
  · rw [standing_beside, standing_beside, hspot]
    exact hdiffers.elsewhere _ (Ne.symm hbeside)
  · exact blocked_congr hsplit hdiffers.home fun other _ =>
      (Files.furnishes_put (List.mem_singleton_self place) hfree).holdsFile other

/-- What happens off its way does not reach a macro file. -/
theorem spares_of_elsewhere (htree : fs'.IsTree) (hdiffers : Files.Differs place fs fs')
    (hmain : place ∉ fs.way path) (hbeside : place ∉ fs.way (staging path)) : Spares path fs fs' := by
  intro h
  have hsame : ∀ other ∈ fs.way path, fs'.entry? other = fs.entry? other := by
    intro other hother
    apply hdiffers.elsewhere
    rintro rfl
    exact hmain hother
  have hspot := Files.spot_of_home hdiffers.home
  refine ⟨⟨htree, ?_⟩, ?_⟩
  · rw [Files.origin_of_home hdiffers.home, Files.climbs_congr hsame]
    exact h.stays
  · apply Standing.ext
    · rw [standing_home, standing_home]
      exact hdiffers.home
    · rw [standing_seen, standing_seen]
      exact Files.at?_congr h.tree htree hdiffers.home hsame
    · rw [standing_there, standing_there, hspot]
      exact hsame _ (hsplit.spot_mem fs)
    · rw [standing_beside, standing_beside, hspot]
      apply hdiffers.elsewhere
      rintro rfl
      exact hbeside (hsplit.spot_mem' fs)
    · refine blocked_congr hsplit hdiffers.home fun other hother => ?_
      rw [Files.holdsFile, Files.holdsFile, hsame other hother]

/-! ### What is done elsewhere -/

variable {q : String}

/-- A file is written elsewhere. -/
theorem spares_modify {change : String → String} (hclear : Clear fs path q)
    (hmodified : fs.modify q change = .ok fs') : Spares path fs fs' := by
  intro h
  obtain ⟨place, content, hplace, hbefore, rfl⟩ := Files.modify_eq_ok hmodified
  obtain ⟨rfl, -, haround⟩ := Files.spot_of_place h.tree hplace hbefore
  have hdiffers := Files.differs_put (fs.spot q) (.file content) fs
  have htree := h.tree.of_differs hdiffers hbefore fun _ => haround
  exact spares_of_elsewhere hsplit htree hdiffers hclear.main hclear.beside h

theorem spares_ensureFolder {target : String} (hmain : fs.spot path ∉ fs.way target)
    (hbeside : fs.spot (staging path) ∉ fs.way target) :
    Spares path fs (fs.keep (fs.ensureFolder target)).1 := by
  intro h
  rw [Files.ensureFolder]
  split
  · rename_i hmade
    obtain ⟨place, hplace, hfree, rfl⟩ := Files.createFolder_eq_ok hmade
    have hbefore : fs.entry? place ≠ some .folder := Files.ne_folder_of_none hfree
    obtain ⟨-, hmem, haround⟩ := Files.spot_of_place h.tree hplace hbefore
    refine spares_put_folder hsplit hfree haround ?_ ?_ h
    · rintro rfl
      exact hmain hmem
    · rintro rfl
      exact hbeside hmem
  · split
    · exact Spares.refl path fs h
    · exact Spares.refl path fs h

theorem spares_makeFoldersAround (fuel : Nat) {target : String} (hmain : fs.spot path ∉ fs.way target)
    (hbeside : fs.spot (staging path) ∉ fs.way target) :
    Spares path fs (fs.makeFoldersAround fuel target).1 := by
  induction fuel generalizing target with
  | zero =>
      rw [Files.makeFoldersAround]
      split
      · exact .refl path fs
      · exact spares_ensureFolder hsplit hmain hbeside
  | succ fuel ih =>
      rw [Files.makeFoldersAround]
      split
      · exact .refl path fs
      · split
        · rename_i parent _ hparent
          have hsub := Files.way_parent?_subset hparent fs
          have hmore := ih (fun hmem => hmain (hsub hmem)) fun hmem => hbeside (hsub hmem)
          split
          · rename_i fs' hmade
            rw [hmade] at hmore
            intro h
            have hhome := congrArg Standing.home (hmore h).2
            rw [standing_home, standing_home] at hhome
            have hway := Files.way_of_home hhome target
            refine hmore.trans (spares_ensureFolder hsplit ?_ ?_) h
            · rw [hway, Files.spot_of_home hhome]
              exact hmain
            · rw [hway, Files.spot_of_home hhome]
              exact hbeside
          · rename_i hmade
            rw [hmade] at hmore
            exact hmore
        · exact spares_ensureFolder hsplit hmain hbeside

/-- A file is moved elsewhere. -/
theorem spares_rename {source target content : String} (hclear : Clear fs path source)
    (hclear' : Clear fs path target) (hthere : fs.at? source = some (.file content))
    (hmoved : fs.rename source target = .ok fs') : Spares path fs fs' := by
  obtain ⟨from', place, hfrom, hfile, hplace, hbefore, -, rfl⟩ := Files.rename_eq_ok hthere hmoved
  intro h
  have hsource : fs.entry? from' ≠ some .folder := Files.ne_folder_of_file hfile
  obtain ⟨rfl, -, -⟩ := Files.spot_of_place h.tree hfrom hsource
  obtain ⟨rfl, -, haround⟩ := Files.spot_of_place h.tree hplace hbefore
  have hdrop := Files.differs_drop (fs.spot source) fs
  have hput := Files.differs_put (fs.spot target) (.file content) (fs.drop (fs.spot source))
  have hfree := Files.entry?_drop fs (Files.ne_nil_of_entry?_ne hsource)
  have htree : (fs.drop (fs.spot source)).IsTree := by
    refine h.tree.of_differs hdrop hsource fun hsome => ?_
    rw [hfree] at hsome
    cases hsome
  have hbefore' : Files.entry? (fs.drop (fs.spot source)) (fs.spot target) ≠ some .folder := by
    by_cases hsame : fs.spot target = fs.spot source
    · rw [hsame, hfree]
      exact nofun
    · rw [hdrop.elsewhere _ hsame]
      exact hbefore
  have htree' := htree.of_differs hput hbefore' fun _ => hdrop.folder_stays hsource haround
  have hdropped := spares_of_elsewhere hsplit htree hdrop hclear.main hclear.beside
  exact hdropped.trans (spares_of_elsewhere hsplit htree' hput hclear'.main hclear'.beside) h

end

theorem home_save (fs : Files) (path : String) (file : MacroFile) :
    (save fs path file).1.home = fs.home := by
  have hroom : (makeRoom fs path).1.home = fs.home := by
    rw [makeRoom]
    split
    · exact Files.home_makeFoldersAround _ fs _
    · rfl
  rw [save]
  split
  · rename_i hmade
    rw [hmade] at hroom
    exact hroom
  · rename_i hmade
    rw [hmade] at hroom
    split
    · exact hroom
    · rename_i hwrite
      have hwritten := (Files.home_modify hwrite).trans hroom
      split
      · exact hwritten
      · rename_i hmoved
        exact (Files.home_rename hmoved).trans hwritten

/-- **Other macro files.** Saving a macro file leaves the standing of another one, however it ends. -/
theorem spares_save {q : String} (hname : (Path.fileName? path).isSome) (hapart : Apart fs path q)
    (file : MacroFile) : Spares path fs (save fs q file).1 := by
  obtain ⟨parent, name, other, hsplit⟩ := exists_split hname
  have hroom : Spares path fs (makeRoom fs q).1 := by
    rw [makeRoom]
    split
    · rename_i around haround
      have hsub := Files.way_parent?_subset haround fs
      exact spares_makeFoldersAround hsplit _ (fun hmem => hapart.main (hsub hmem))
        fun hmem => hapart.beside (hsub hmem)
    · exact .refl path fs
  intro h
  rw [save]
  split
  · rename_i hmade
    rw [hmade] at hroom
    exact hroom h
  · rename_i fs' hmade
    rw [hmade] at hroom
    obtain ⟨hsturdy, hsame⟩ := hroom h
    have hhome := congrArg Standing.home hsame
    rw [standing_home, standing_home] at hhome
    split
    · exact hroom h
    · rename_i fs'' hwrite
      have hwritten := hroom.trans (spares_modify hsplit (hapart.clearBeside.of_home hhome) hwrite)
      obtain ⟨-, hsame'⟩ := hwritten h
      have hhome' := congrArg Standing.home hsame'
      rw [standing_home, standing_home] at hhome'
      split
      · exact hwritten h
      · rename_i hmoved
        exact hwritten.trans (spares_rename hsplit (hapart.clearBeside.of_home hhome')
          (hapart.clear.of_home hhome') (hsturdy.tree.at?_write hwrite) hmoved) h

end MacroFile

end CrowdPad
