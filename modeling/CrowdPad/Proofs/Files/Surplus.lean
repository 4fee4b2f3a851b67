import CrowdPad.Proofs.Macro.Neighbours

/-! What a file that was made for nothing leaves behind: folders around it, and the file, which is empty.
Where two trees of files differ by that much, whatever keeps off the file and does not need a folder in
its place goes on alike in both. -/

namespace CrowdPad

/-- The path around a path. -/
def Path.around (path : String) : String := (Path.parent? path).getD ""

namespace Files

variable {base fs fs' g g' : Files} {place folder names : List String} {path content : String}

/-! ### Growing trees -/

/-- Whether what is there stays there, except for what files hold. -/
structure Grows (fs fs' : Files) : Prop where
  home : fs'.home = fs.home
  folder : ∀ place, fs.entry? place = some .folder → fs'.entry? place = some .folder
  file : ∀ place, fs.holdsFile place → fs'.holdsFile place

theorem Grows.refl (fs : Files) : Grows fs fs := ⟨rfl, fun _ => id, fun _ => id⟩

theorem Grows.trans {fs'' : Files} (h : Grows fs fs') (h' : Grows fs' fs'') : Grows fs fs'' where
  home := h'.home.trans h.home
  folder place := h'.folder place ∘ h.folder place
  file place := h'.file place ∘ h.file place

theorem Furnishes.grows {places : List (List String)} (h : Furnishes places fs fs') : Grows fs fs' where
  home := h.home
  folder place hfolder := by
    rcases h.entry place with hsame | ⟨-, -, hmade⟩
    · exact hsame.trans hfolder
    · exact hmade
  file place hfile := by
    rw [h.holdsFile place]
    exact hfile

theorem holdsFile_of_entry? (h : fs.entry? place = some (.file content)) : fs.holdsFile place := by
  rw [holdsFile, h]

theorem grows_put (hbefore : fs.entry? place ≠ some .folder) (content : String) :
    Grows fs (fs.put place (.file content)) := by
  have hdiffers := differs_put place (.file content) fs
  refine ⟨hdiffers.home, fun _ => hdiffers.folder_stays hbefore, fun other hfile => ?_⟩
  by_cases hsame : other = place
  · rw [hsame]
    exact holdsFile_of_entry? (entry?_put fs (ne_nil_of_entry?_ne hbefore) _)
  · rw [holdsFile, hdiffers.elsewhere other hsame]
    exact hfile

theorem not_climbs_of_no_back (hback : ".." ∉ names) : fs.climbs folder names = false := by
  induction folder, names using walk_induction fs with
  | nil folder => rfl
  | skip folder name rest hskip ih =>
      rw [climbs_skip hskip]
      exact ih fun hmem => hback (List.mem_cons_of_mem _ hmem)
  | up folder rest => exact absurd (List.mem_cons_self ..) hback
  | enter folder name rest hleads hup henter ih =>
      rw [climbs_enter hleads hup henter]
      exact ih fun hmem => hback (List.mem_cons_of_mem _ hmem)
  | stop folder name rest hleads hup hstop =>
      have hrest : rest.contains ".." = false := by
        rw [List.contains_eq_mem, decide_eq_false_iff_not]
        exact fun hmem => hback (List.mem_cons_of_mem _ hmem)
      rw [climbs_stop hleads hup hstop, hrest, Bool.and_false]

/-- What does not climb goes on not to climb while the tree grows. -/
theorem Grows.not_climbs (h : Grows fs fs') (hstays : fs.climbs folder names = false) :
    fs'.climbs folder names = false := by
  induction folder, names using walk_induction fs with
  | nil folder => rfl
  | skip folder name rest hskip ih =>
      rw [climbs_skip hskip] at hstays ⊢
      exact ih hstays
  | up folder rest ih =>
      rw [climbs_up] at hstays ⊢
      exact ih hstays
  | enter folder name rest hleads hup henter ih =>
      rw [climbs_enter hleads hup henter] at hstays
      rw [climbs_enter hleads hup (h.folder _ henter)]
      exact ih hstays
  | stop folder name rest hleads hup hstop =>
      rw [climbs_stop hleads hup hstop] at hstays
      cases hfile : fs.holdsFile (folder ++ [name]) with
      | true =>
          obtain ⟨content, hcontent⟩ := entry?_of_holdsFile (h.file _ hfile)
          have hstop' : fs'.entry? (folder ++ [name]) ≠ some .folder := ne_folder_of_file hcontent
          rw [climbs_stop hleads hup hstop', hcontent]
          rfl
      | false =>
          have hfree := (entry?_of_not_holdsFile hfile).resolve_right hstop
          rw [hfree, Option.isNone_none, Bool.true_and, List.contains_eq_mem,
            decide_eq_false_iff_not] at hstays
          refine not_climbs_of_no_back ?_
          rw [List.mem_cons, not_or]
          exact ⟨Ne.symm hup, hstays⟩

theorem Sturdy.grows (h : fs.Sturdy path) (hgrows : Grows fs fs') (htree : fs'.IsTree) :
    fs'.Sturdy path := by
  refine ⟨htree, ?_⟩
  rw [origin_of_home hgrows.home]
  exact hgrows.not_climbs h.stays

/-! ### What is made around a file -/

/-- Nothing stands where names lead from a free place. -/
theorem free_lands (htree : fs.IsTree) (hfree : fs.entry? folder = none) (hback : ".." ∉ names) :
    fs.entry? (lands folder names) = none := by
  induction folder, names using way_induction with
  | nil folder => exact hfree
  | skip folder name rest hskip ih =>
      rw [lands_skip hskip]
      exact ih hfree fun hmem => hback (List.mem_cons_of_mem _ hmem)
  | up folder rest => exact absurd (List.mem_cons_self ..) hback
  | on folder name rest hleads hup ih =>
      have hmem : folder ++ [name] ∈ passes folder (name :: rest) := by
        rw [passes_name hleads hup]
        exact List.mem_cons_self ..
      rw [lands_name hleads hup]
      exact ih (free_beyond htree hfree hback hmem) fun hmem => hback (List.mem_cons_of_mem _ hmem)

theorem furnishes_ensureFolder (htree : fs.IsTree) (path : String) :
    Furnishes (fs.way path) fs (fs.keep (fs.ensureFolder path)).1 := by
  rw [ensureFolder]
  split
  · rename_i hmade
    obtain ⟨place, hplace, hfree, rfl⟩ := createFolder_eq_ok hmade
    refine furnishes_put (spot_of_place htree hplace ?_).2.1 hfree
    rw [hfree]
    exact (Option.some_ne_none _).symm
  · split
    · exact .refl _ fs
    · exact .refl _ fs

/-- Whether or not all folders of a way can be made, nothing else changes. -/
theorem furnishes_makeFoldersAround (htree : fs.IsTree) (fuel : Nat) (path : String) :
    Furnishes (fs.way path) fs (fs.makeFoldersAround fuel path).1 := by
  induction fuel generalizing path with
  | zero =>
      rw [makeFoldersAround]
      split
      · exact .refl _ fs
      · exact furnishes_ensureFolder htree path
  | succ fuel ih =>
      rw [makeFoldersAround]
      split
      · exact .refl _ fs
      · split
        · rename_i parent _ hparent
          have haround := (ih parent).mono (way_parent?_subset hparent fs)
          have htree' := htree.makeFoldersAround fuel parent
          split
          · rename_i fs' hmade
            rw [hmade] at haround htree'
            have hlast := furnishes_ensureFolder htree' path
            rw [way_of_home haround.home] at hlast
            exact haround.trans hlast
          · rename_i hmade
            rwa [hmade] at haround
        · exact furnishes_ensureFolder htree path

/-! ### What is left over -/

/-- Whether the second of two trees has more by folders around a file, and by the file, which is empty.
Both have grown from a common one. -/
structure Surplus (log : String) (base fs fs' : Files) : Prop where
  grows : Grows base fs
  grows' : Grows base fs'
  tree : fs.IsTree
  tree' : fs'.IsTree
  entry : ∀ place, fs'.entry? place = fs.entry? place ∨ fs.entry? place = none ∧
    (place ∈ base.way (Path.around log) ∧ fs'.entry? place = some .folder ∨
      place = base.spot log ∧ fs'.entry? place = some (.file ""))

namespace Surplus

variable {log : String} (h : Surplus log base fs fs')

include h

theorem home : fs'.home = fs.home := h.grows'.home.trans h.grows.home.symm

theorem folder_stays (hfolder : fs.entry? place = some .folder) : fs'.entry? place = some .folder := by
  rcases h.entry place with hsame | ⟨hfree, -⟩
  · exact hsame.trans hfolder
  · rw [hfree] at hfolder
    cases hfolder

theorem holdsFile (hspot : place ≠ base.spot log) : fs'.holdsFile place = fs.holdsFile place := by
  rcases h.entry place with hsame | ⟨hfree, ⟨-, hfolder⟩ | ⟨rfl, -⟩⟩
  · rw [Files.holdsFile, Files.holdsFile, hsame]
  · rw [holdsFile_eq_false (.inl hfree), holdsFile_eq_false (.inr hfolder)]
  · exact absurd rfl hspot

/-- Names lead to the same, if the same stands where they lead. -/
theorem reach?_eq (hstays : fs.climbs folder names = false)
    (hsame : fs'.entry? (lands folder names) = fs.entry? (lands folder names)) :
    fs'.reach? folder names = fs.reach? folder names := by
  induction folder, names using walk_induction fs with
  | nil folder => exact hsame
  | skip folder name rest hskip ih =>
      rw [climbs_skip hskip] at hstays
      rw [lands_skip hskip] at hsame
      rw [reach?_skip hskip, reach?_skip hskip]
      exact ih hstays hsame
  | up folder rest ih =>
      rw [climbs_up] at hstays
      rw [lands_up] at hsame
      rw [reach?_up, reach?_up]
      exact ih hstays hsame
  | enter folder name rest hleads hup henter ih =>
      rw [climbs_enter hleads hup henter] at hstays
      rw [lands_name hleads hup] at hsame
      rw [reach?_enter hleads hup henter, reach?_enter hleads hup (h.folder_stays henter)]
      exact ih hstays hsame
  | stop folder name rest hleads hup hstop =>
      rw [climbs_stop hleads hup hstop] at hstays
      rw [lands_name hleads hup] at hsame
      rcases h.entry (folder ++ [name]) with hentry | ⟨hfree, hmore⟩
      · rw [reach?_stop hleads hup hstop, reach?_stop hleads hup (by rwa [hentry]), hentry]
      · rw [hfree, Option.isNone_none, Bool.true_and, List.contains_eq_mem,
          decide_eq_false_iff_not] at hstays
        have hnone : fs.reach? folder (name :: rest) = none := by
          rw [reach?_stop hleads hup hstop, hfree, ite_self]
        have hlast : fs'.entry? (lands (folder ++ [name]) rest) = none :=
          hsame.trans (free_lands h.tree hfree hstays)
        rw [hnone, reach?]
        cases hwalk : fs'.walk folder (name :: rest) with
        | error fault => rfl
        | ok place =>
            rw [eq_lands_of_walk hwalk, lands_name hleads hup]
            exact hlast

/-- What a path leads to is the same in both trees, if it leads nowhere near the file. -/
theorem at?_eq (hsturdy : base.Sturdy path) (haway : base.spot path ∉ base.way (Path.around log))
    (hspot : base.spot path ≠ base.spot log) : fs'.at? path = fs.at? path := by
  by_cases hne : path = ""
  · rw [hne]
    rfl
  · have hsame : fs'.entry? (fs.spot path) = fs.entry? (fs.spot path) := by
      rw [spot_of_home h.grows.home]
      refine (h.entry _).resolve_right ?_
      rintro ⟨-, ⟨hmem, -⟩ | ⟨hat, -⟩⟩
      · exact haway hmem
      · exact hspot hat
    rw [at?_eq_reach? hne, at?_eq_reach? hne, origin_of_home h.home]
    exact h.reach?_eq (hsturdy.grows h.grows h.tree).stays hsame

/-- The same file is written in both trees. -/
theorem put (hbefore : fs.entry? place ≠ some .folder) (hbefore' : fs'.entry? place ≠ some .folder)
    (haround : fs.entry? place.dropLast = some .folder) (content : String) :
    Surplus log base (fs.put place (.file content)) (fs'.put place (.file content)) := by
  have hdiffers := differs_put place (.file content) fs
  have hdiffers' := differs_put place (.file content) fs'
  refine ⟨h.grows.trans (grows_put hbefore content), h.grows'.trans (grows_put hbefore' content), ?_, ?_,
    fun other => ?_⟩
  · exact h.tree.of_differs hdiffers hbefore fun _ => haround
  · exact h.tree'.of_differs hdiffers' hbefore' fun _ => h.folder_stays haround
  · by_cases hsame : other = place
    · left
      rw [hsame, entry?_put fs (ne_nil_of_entry?_ne hbefore), entry?_put fs' (ne_nil_of_entry?_ne hbefore)]
    · rw [hdiffers.elsewhere other hsame, hdiffers'.elsewhere other hsame]
      exact h.entry other

/-- Folders are made along the same way in both trees. -/
theorem furnish (hopens : g.Opens (base.origin path) (Path.parts path.toList))
    (hopens' : g'.Opens (base.origin path) (Path.parts path.toList))
    (hmade : Furnishes (base.way path) fs g) (hmade' : Furnishes (base.way path) fs' g') (htree : g.IsTree)
    (htree' : g'.IsTree) : Surplus log base g g' := by
  refine ⟨h.grows.trans hmade.grows, h.grows'.trans hmade'.grows, htree, htree', fun place => ?_⟩
  by_cases hmem : place ∈ base.way path
  · left
    rw [way_eq_passes] at hmem
    exact (hopens' place hmem).trans (hopens place hmem).symm
  · have hsame := (hmade.entry place).resolve_right fun hother => hmem hother.1
    have hsame' := (hmade'.entry place).resolve_right fun hother => hmem hother.1
    rw [hsame, hsame']
    exact h.entry place

/-- Folders are made in both trees, or fail to be made in the same way, as no folder is needed where the
file is. -/
theorem makeFolders (hsturdy : base.Sturdy path) (htrim : Path.Trim path)
    (hspot : base.spot log ∉ base.way path) :
    (∃ fault, fs.makeFolders path = (fs, .error fault) ∧ fs'.makeFolders path = (fs', .error fault)) ∨
      ∃ g g', fs.makeFolders path = (g, .ok ()) ∧ fs'.makeFolders path = (g', .ok ()) ∧
        Surplus log base g g' ∧ g.Opens (base.origin path) (Path.parts path.toList) ∧
          g'.Opens (base.origin path) (Path.parts path.toList) := by
  have horigin := origin_of_home h.grows.home path
  have horigin' := origin_of_home h.grows'.home path
  have hstays := (hsturdy.grows h.grows h.tree).stays_parts
  have hstays' := (hsturdy.grows h.grows' h.tree').stays_parts
  have hblocked : fs'.blocked? (fs'.origin path) (Path.parts path.toList) =
      fs.blocked? (fs.origin path) (Path.parts path.toList) := by
    rw [horigin, horigin']
    refine blocked?_congr (fun _ => leads_of_mem_parts) fun place hplace => h.holdsFile ?_
    rintro rfl
    rw [← way_eq_passes] at hplace
    exact hspot hplace
  cases hcase : fs.blocked? (fs.origin path) (Path.parts path.toList) with
  | some fault =>
      rw [hcase] at hblocked
      exact .inl ⟨fault, makeFoldersAround_of_blocked h.tree _ htrim hstays hcase,
        makeFoldersAround_of_blocked h.tree' _ htrim hstays' hblocked⟩
  | none =>
      rw [hcase, blocked?_eq_none_iff fun _ => leads_of_mem_parts, ← way_eq_passes] at hblocked
      rw [blocked?_eq_none_iff fun _ => leads_of_mem_parts, ← way_eq_passes] at hcase
      obtain ⟨g, hmade, hopens, hfurnishes⟩ := canFurnish h.tree path.length htrim le_rfl hcase
      obtain ⟨g', hmade', hopens', hfurnishes'⟩ := canFurnish h.tree' path.length htrim le_rfl hblocked
      have htree := h.tree.makeFoldersAround path.length path
      have htree' := h.tree'.makeFoldersAround path.length path
      rw [hmade] at htree
      rw [hmade'] at htree'
      rw [horigin] at hopens
      rw [horigin'] at hopens'
      rw [way_of_home h.grows.home] at hfurnishes
      rw [way_of_home h.grows'.home] at hfurnishes'
      exact .inr ⟨g, g', hmade, hmade', h.furnish hopens hopens' hfurnishes hfurnishes' htree htree',
        hopens, hopens'⟩

end Surplus

end Files

end CrowdPad
