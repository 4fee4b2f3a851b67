import CrowdPad.Proofs.Files.Way

/-! Folders made along a way. They are made exactly if no file stands on the way, whatever part of them
is there already; what is made is free before, and where a file is in the way nothing is made. -/

namespace CrowdPad.Files

variable {fs fs' : Files} {place folder : List String} {path name : String} {names : List String}

/-! ### Ways of paths -/

/-- The places that a path passes through. -/
def way (fs : Files) (path : String) : List (List String) := passes (fs.origin path) (Path.names path)

/-- Where a path leads if nothing is in the way. -/
def spot (fs : Files) (path : String) : List String := lands (fs.origin path) (Path.names path)

section

variable (h : fs'.home = fs.home) (path : String)

include h

theorem origin_of_home : fs'.origin path = fs.origin path := by
  rw [origin, origin, h]

theorem way_of_home : fs'.way path = fs.way path := by
  rw [way, way, origin_of_home h]

theorem spot_of_home : fs'.spot path = fs.spot path := by
  rw [spot, spot, origin_of_home h]

end

theorem parts_eq_filter (path : String) :
    Path.parts path.toList = (Path.names path).filter Path.leads := rfl

theorem way_eq_passes (fs : Files) (path : String) :
    fs.way path = passes (fs.origin path) (Path.parts path.toList) := by
  rw [way, parts_eq_filter, (way_filter_leads _ _).1]

theorem spot_eq_lands (fs : Files) (path : String) :
    fs.spot path = lands (fs.origin path) (Path.parts path.toList) := by
  rw [spot, parts_eq_filter, (way_filter_leads _ _).2]

theorem way_parent?_subset {parent : String} (h : Path.parent? path = some parent) (fs : Files) :
    fs.way parent ⊆ fs.way path := by
  obtain ⟨habsolute, ⟨rfl, -⟩ | ⟨name, -, hparts⟩⟩ := Path.parent?_cases h
  · rw [way_eq_passes]
    exact List.nil_subset _
  · have horigin : fs.origin parent = fs.origin path := by
      rw [origin, origin, habsolute]
    rw [way_eq_passes, way_eq_passes, hparts, horigin, (way_append _ _ _).1]
    exact List.subset_append_left _ _

theorem walk_of_filter_eq_nil (h : names.filter Path.leads = []) :
    fs.walk folder names = .ok folder := by
  induction names with
  | nil => rfl
  | cons name rest ih =>
      have hskip : Path.leads name = false :=
        Bool.eq_false_iff.mpr (List.filter_eq_nil_iff.mp h name (List.mem_cons_self ..))
      rw [List.filter_cons_of_neg (by simp [hskip])] at h
      rw [walk_skip hskip]
      exact ih h

theorem last_solid (hleads : Path.leads name) (names : List String) :
    (names ++ [name]).all String.isEmpty = false := by
  have hsolid : name.isEmpty = false := by
    rw [String.isEmpty_eq_false_iff]
    rintro rfl
    exact absurd hleads (by decide)
  simp [hsolid]

/-- Before a last name that leads somewhere, those that lead nowhere can be left out. -/
theorem walk_filter_concat {last : String} (hlast : Path.leads last) :
    fs.walk folder (names.filter Path.leads ++ [last]) = fs.walk folder (names ++ [last]) := by
  induction folder, names using walk_induction fs with
  | nil folder => rfl
  | skip folder name rest hskip ih =>
      rw [List.filter_cons_of_neg (by simp [hskip]), List.cons_append, walk_skip hskip]
      exact ih
  | up folder rest ih =>
      rw [List.filter_cons_of_pos (by decide), List.cons_append, List.cons_append, walk_up, walk_up]
      exact ih
  | enter folder name rest hleads hup henter ih =>
      rw [List.filter_cons_of_pos hleads, List.cons_append, List.cons_append,
        walk_enter hleads hup henter, walk_enter hleads hup henter]
      exact ih
  | stop folder name rest hleads hup hstop =>
      have hmore (names : List String) : (names ++ [last]).isEmpty = false := by simp
      rw [List.filter_cons_of_pos hleads, List.cons_append, List.cons_append, walk_name hleads hup,
        walk_name hleads hup, hmore, hmore, last_solid hlast, last_solid hlast]
      split
      · rename_i hfolder
        exact absurd hfolder hstop
      · rfl
      · rfl

theorem place_of_trim (htrim : Path.Trim path) (hne : path ≠ "") :
    fs.place path = fs.walk (fs.origin path) (Path.parts path.toList) := by
  rw [place_of_ne hne]
  rcases htrim with hnone | ⟨before, last, hnames, hleads⟩
  · rw [hnone]
    exact walk_of_filter_eq_nil hnone
  · have hparts : Path.parts path.toList = before.filter Path.leads ++ [last] := by
      rw [parts_eq_filter, hnames, List.filter_append, List.filter_cons_of_pos hleads, List.filter_nil]
    rw [hparts, hnames, walk_filter_concat hleads]

theorem spot_of_parts (hparts : Path.parts path.toList = names ++ [name]) (hleads : Path.leads name)
    (hup : name ≠ "..") (fs : Files) : fs.spot path = lands (fs.origin path) names ++ [name] := by
  rw [spot_eq_lands, hparts, (way_append _ _ _).2, lands_name hleads hup]
  rfl

/-- In a folder that is there, a path leads to the place of its last name or nowhere, depending on
nothing but what stands there. -/
theorem place_of_opens (hparts : Path.parts path.toList = names ++ [name]) (hleads : Path.leads name)
    (hup : name ≠ "..") (hopens : fs.Opens (fs.origin path) names) :
    (fs.place path = .ok (fs.spot path) ∨ ∃ fault, fs.place path = .error fault) ∧
      ∀ fs' : Files, fs'.Opens (fs.origin path) names → fs'.home = fs.home →
        fs'.entry? (fs.spot path) = fs.entry? (fs.spot path) → fs'.place path = fs.place path := by
  have hne : path ≠ "" := by
    rintro rfl
    exact absurd hparts.symm (List.concat_ne_nil name names)
  obtain ⟨before, last, hnames, hbefore, hlast⟩ := List.filter_eq_append_iff.mp hparts
  obtain ⟨skipped, after, rfl, hskipped, -, hafter⟩ := List.filter_eq_cons_iff.mp hlast
  have hfront : (before ++ skipped).filter Path.leads = names := by
    rw [List.filter_append, hbefore, List.filter_eq_nil_iff.mpr hskipped, List.append_nil]
  have hway := way_filter_leads (fs.origin path) (before ++ skipped)
  rw [hfront] at hway
  have hplace {fs' : Files} (hopens : fs'.Opens (fs.origin path) names) (hhome : fs'.home = fs.home) :
      fs'.place path = fs'.walk (lands (fs.origin path) names) (name :: after) := by
    have horigin := origin_of_home hhome path
    have hfull : Path.names path = (before ++ skipped) ++ name :: after := by
      rw [List.append_assoc]
      exact hnames
    have hopens' : fs'.Opens (fs.origin path) (before ++ skipped) := by
      rw [Opens, ← hway.1]
      exact hopens
    rw [place_of_ne hne, horigin, hfull, hopens'.walk_append, hway.2]
  have hspot := spot_of_parts hparts hleads hup fs
  have hend (fs' : Files) : fs'.walk (lands (fs.origin path) names ++ [name]) after =
      .ok (lands (fs.origin path) names ++ [name]) := walk_of_filter_eq_nil hafter
  rw [hspot]
  refine ⟨?_, fun fs' hopens' hhome hentry => ?_⟩
  · rw [hplace hopens rfl, walk_name hleads hup]
    split
    · exact .inl (hend fs)
    · split
      · exact .inl rfl
      · exact .inr ⟨_, rfl⟩
    · split
      · exact .inl rfl
      · exact .inr ⟨_, rfl⟩
  · rw [hplace hopens' hhome, hplace hopens rfl, walk_name hleads hup, walk_name hleads hup, hentry,
      hend, hend]

/-- With nothing behind its last name, such a path leads there whatever stands at the place. -/
theorem place_of_trim_of_opens (htrim : Path.Trim path)
    (hparts : Path.parts path.toList = names ++ [name]) (hleads : Path.leads name) (hup : name ≠ "..")
    (hopens : fs.Opens (fs.origin path) names) : fs.place path = .ok (fs.spot path) := by
  have hne : path ≠ "" := by
    rintro rfl
    exact absurd hparts.symm (List.concat_ne_nil name names)
  rw [place_of_trim htrim hne, hparts, hopens.walk_append, spot_of_parts hparts hleads hup fs,
    walk_name hleads hup]
  split <;> rfl

/-! ### One folder -/

/-- Whether folders were made at some places that were free, and nothing else happened. -/
structure Furnishes (places : List (List String)) (fs fs' : Files) : Prop where
  home : fs'.home = fs.home
  entry : ∀ place, fs'.entry? place = fs.entry? place ∨
    place ∈ places ∧ fs.entry? place = none ∧ fs'.entry? place = some .folder

variable {places more : List (List String)}

theorem Furnishes.refl (places : List (List String)) (fs : Files) : Furnishes places fs fs :=
  ⟨rfl, fun _ => .inl rfl⟩

theorem Furnishes.trans {fs'' : Files} (h : Furnishes places fs fs') (h' : Furnishes places fs' fs'') :
    Furnishes places fs fs'' := by
  refine ⟨h'.home.trans h.home, fun place => ?_⟩
  rcases h.entry place with hsame | ⟨hmem, hfree, hmade⟩
  · rw [← hsame]
    exact h'.entry place
  · rcases h'.entry place with hsame' | ⟨-, hfree', -⟩
    · exact .inr ⟨hmem, hfree, hsame'.trans hmade⟩
    · rw [hmade] at hfree'
      cases hfree'

theorem Furnishes.mono (h : Furnishes places fs fs') (hsub : places ⊆ more) : Furnishes more fs fs' :=
  ⟨h.home, fun place => (h.entry place).imp_right fun ⟨hmem, hmade⟩ => ⟨hsub hmem, hmade⟩⟩

theorem Furnishes.holdsFile (h : Furnishes places fs fs') (place : List String) :
    fs'.holdsFile place = fs.holdsFile place := by
  rcases h.entry place with hsame | ⟨-, hfree, hmade⟩
  · rw [Files.holdsFile, Files.holdsFile, hsame]
  · rw [holdsFile_eq_false (.inl hfree), holdsFile_eq_false (.inr hmade)]

theorem furnishes_put (hmem : place ∈ places) (hfree : fs.entry? place = none) :
    Furnishes places fs (fs.put place .folder) := by
  have hne : place ≠ [] := by
    rintro rfl
    cases hfree
  refine ⟨rfl, fun other => ?_⟩
  by_cases hsame : other = place
  · rw [hsame]
    exact .inr ⟨hmem, hfree, entry?_put fs hne .folder⟩
  · exact .inl ((differs_put place .folder fs).elsewhere other hsame)

theorem createFolder_of_free (hplace : fs.place path = .ok place) (hfree : fs.entry? place = none) :
    fs.createFolder path = .ok (fs.put place .folder) := by
  refine (bind_of_eq_ok hplace _).trans ?_
  rw [hfree]
  rfl

theorem createFolder_of_some (hplace : fs.place path = .ok place) {entry : FileEntry}
    (hthere : fs.entry? place = some entry) : fs.createFolder path = .error .exists := by
  refine (bind_of_eq_ok hplace _).trans ?_
  rw [hthere]
  rfl

theorem createFolder_of_error {fault : FileFault} (hplace : fs.place path = .error fault) :
    fs.createFolder path = .error fault := by
  rw [createFolder, hplace]
  rfl

theorem keep_ensureFolder_of_folder (hplace : fs.place path = .ok place)
    (hfolder : fs.entry? place = some .folder) : fs.keep (fs.ensureFolder path) = (fs, .ok ()) := by
  have hthere : fs.isFolder path = true := by
    rw [isFolder, at?_of_place hplace, hfolder]
    rfl
  rw [ensureFolder, createFolder_of_some hplace hfolder]
  simp only [hthere, if_true]
  rfl

/-- In a folder that is there another one is made, if no file stands there. -/
theorem keep_ensureFolder_of_opens (htree : fs.IsTree) (htrim : Path.Trim path) (hne : path ≠ "")
    (hparts : Path.parts path.toList = names ++ [name]) (hleads : Path.leads name)
    (hopens : fs.Opens (fs.origin path) names)
    (hfile : ∀ place ∈ fs.way path, fs.holdsFile place = false) :
    ∃ fs', fs.keep (fs.ensureFolder path) = (fs', .ok ()) ∧
      fs'.Opens (fs.origin path) (Path.parts path.toList) ∧ Furnishes (fs.way path) fs fs' := by
  have hplace : fs.place path = fs.walk (lands (fs.origin path) names) [name] := by
    rw [place_of_trim htrim hne, hparts, hopens.walk_append]
  have hfolder := hopens.lands htree (htree.origin path)
  have hway : passes (fs.origin path) (Path.parts path.toList) =
      passes (fs.origin path) names ++ passes (lands (fs.origin path) names) [name] := by
    rw [hparts, (way_append _ _ _).1]
  by_cases hup : name = ".."
  · rw [hup] at hplace hway
    rw [passes_up, passes, List.append_nil] at hway
    rw [walk_up] at hplace
    refine ⟨fs, keep_ensureFolder_of_folder hplace (htree.dropLast hfolder), ?_, .refl _ fs⟩
    rw [Opens, hway]
    exact hopens
  · rw [passes_name hleads hup, passes] at hway
    have hlast : lands (fs.origin path) names ++ [name] ∈ fs.way path := by
      rw [way_eq_passes, hway]
      exact List.mem_append_right _ (List.mem_singleton_self _)
    rcases entry?_of_not_holdsFile (hfile _ hlast) with hfree | hthere
    · rw [walk_name hleads hup, hfree] at hplace
      have hfurnishes := furnishes_put hlast hfree
      refine ⟨fs.put (lands (fs.origin path) names ++ [name]) .folder, ?_, ?_, hfurnishes⟩
      · rw [ensureFolder, createFolder_of_free hplace hfree]
        rfl
      · rw [Opens, hway]
        intro other hother
        rcases hfurnishes.entry other with hsame | ⟨-, -, hmade⟩
        · rcases List.mem_append.mp hother with hbefore | hat
          · exact hsame.trans (hopens other hbefore)
          · rw [List.mem_singleton.mp hat]
            exact entry?_put fs (by simp) .folder
        · exact hmade
    · rw [walk_enter hleads hup hthere] at hplace
      refine ⟨fs, keep_ensureFolder_of_folder hplace hthere, ?_, .refl _ fs⟩
      rw [Opens, hway]
      intro other hother
      rcases List.mem_append.mp hother with hbefore | hat
      · exact hopens other hbefore
      · rw [List.mem_singleton.mp hat]
        exact hthere

/-! ### All folders -/

/-- Where a folder is missing on the way, names that go on lead nowhere. -/
theorem walk_missing (hopens : ¬fs.Opens folder names)
    (hfile : ∀ place ∈ passes folder names, fs.holdsFile place = false) (hleads : Path.leads name) :
    fs.walk folder (names ++ [name]) = .error .missing := by
  induction folder, names using walk_induction fs with
  | nil folder => exact absurd (fun _ hmem => absurd hmem List.not_mem_nil) hopens
  | skip folder first rest hskip ih =>
      rw [Opens, passes_skip hskip] at hopens
      rw [passes_skip hskip] at hfile
      rw [List.cons_append, walk_skip hskip]
      exact ih hopens hfile
  | up folder rest ih =>
      rw [Opens, passes_up] at hopens
      rw [passes_up] at hfile
      rw [List.cons_append, walk_up]
      exact ih hopens hfile
  | enter folder first rest hleads' hup henter ih =>
      rw [Opens, passes_name hleads' hup, List.forall_mem_cons, not_and] at hopens
      rw [passes_name hleads' hup, List.forall_mem_cons] at hfile
      rw [List.cons_append, walk_enter hleads' hup henter]
      exact ih (hopens henter) hfile.2
  | stop folder first rest hleads' hup hstop =>
      rw [passes_name hleads' hup, List.forall_mem_cons] at hfile
      have hfree := (entry?_of_not_holdsFile hfile.1).resolve_right hstop
      have hmore := last_solid hleads rest
      rw [List.cons_append, walk_name hleads' hup, hfree]
      simp only [hmore, Bool.false_eq_true, if_false]

/-- Nothing has to be made around a folder that leads nowhere or can be made at once. -/
theorem makeFoldersAround_succ (fuel : Nat) (hne : path ≠ "")
    (h : fs.createFolder path ≠ .error .missing ∨ Path.parent? path = none) :
    fs.makeFoldersAround (fuel + 1) path = fs.keep (fs.ensureFolder path) := by
  rw [makeFoldersAround, if_neg (by simpa using hne)]
  split
  · rename_i hmissing hparent
    rcases h with hcreate | hnone
    · exact absurd hmissing hcreate
    · rw [hnone] at hparent
      cases hparent
  · rfl

theorem createFolder_ne_missing (hplace : fs.place path = .ok place) :
    fs.createFolder path ≠ .error .missing := by
  cases hentry : fs.entry? place with
  | none =>
      rw [createFolder_of_free hplace hentry]
      exact nofun
  | some entry =>
      rw [createFolder_of_some hplace hentry]
      exact nofun

theorem exists_walk_singleton (fs : Files) (folder : List String) (hleads : Path.leads name) :
    ∃ place, fs.walk folder [name] = .ok place := by
  by_cases hup : name = ".."
  · rw [hup, walk_up]
    exact ⟨_, rfl⟩
  · rw [walk_name hleads hup]
    split
    · exact ⟨_, rfl⟩
    · exact ⟨_, rfl⟩
    · exact ⟨_, rfl⟩

/-- Whether folders can be made all along the way of a path, with some fuel. -/
def CanFurnish (fs : Files) (fuel : Nat) (path : String) : Prop :=
  ∃ fs', fs.makeFoldersAround fuel path = (fs', .ok ()) ∧
    fs'.Opens (fs.origin path) (Path.parts path.toList) ∧ Furnishes (fs.way path) fs fs'

theorem canFurnish_empty (fs : Files) (fuel : Nat) : fs.CanFurnish fuel "" := by
  refine ⟨fs, ?_, fun _ hmem => absurd hmem List.not_mem_nil, .refl _ fs⟩
  cases fuel <;> rfl

theorem canFurnish_of_nowhere (htree : fs.IsTree) (fuel : Nat) (htrim : Path.Trim path) (hne : path ≠ "")
    (hnone : Path.parts path.toList = []) : fs.CanFurnish (fuel + 1) path := by
  have hplace : fs.place path = .ok (fs.origin path) := by
    rw [place_of_trim htrim hne, hnone]
    rfl
  refine ⟨fs, ?_, ?_, .refl _ fs⟩
  · rw [makeFoldersAround_succ fuel hne (.inl (createFolder_ne_missing hplace))]
    exact keep_ensureFolder_of_folder hplace (htree.origin path)
  · rw [hnone]
    exact fun _ hmem => absurd hmem List.not_mem_nil

/-- Where a folder around is missing, those around are made first. -/
theorem CanFurnish.further {fuel : Nat} {parent : String} (h : fs.CanFurnish fuel parent)
    (htree : fs.IsTree) (htrim : Path.Trim path) (hne : path ≠ "")
    (hparent : Path.parent? path = some parent) (horigin : fs.origin parent = fs.origin path)
    (hparts : Path.parts path.toList = Path.parts parent.toList ++ [name]) (hleads : Path.leads name)
    (hopens : ¬fs.Opens (fs.origin path) (Path.parts parent.toList))
    (hfile : ∀ place ∈ fs.way path, fs.holdsFile place = false) : fs.CanFurnish (fuel + 1) path := by
  have hsub := way_parent?_subset hparent fs
  have hmissing : fs.createFolder path = .error .missing := by
    apply createFolder_of_error
    rw [place_of_trim htrim hne, hparts]
    refine walk_missing hopens (fun other hother => hfile other (hsub ?_)) hleads
    rw [way_eq_passes, horigin]
    exact hother
  obtain ⟨fs', hmade, hopens', hfurnishes⟩ := h
  have htree' : fs'.IsTree := by
    have hkept := htree.makeFoldersAround fuel parent
    rwa [hmade] at hkept
  have horigin' := origin_of_home hfurnishes.home path
  have hway' := way_of_home hfurnishes.home path
  have hfile' : ∀ place ∈ fs'.way path, fs'.holdsFile place = false := by
    intro other hother
    rw [hfurnishes.holdsFile]
    exact hfile other (hway' ▸ hother)
  rw [horigin, ← horigin'] at hopens'
  obtain ⟨fs'', hmade', hopens'', hfurnishes'⟩ :=
    keep_ensureFolder_of_opens htree' htrim hne hparts hleads hopens' hfile'
  rw [horigin'] at hopens''
  rw [hway'] at hfurnishes'
  refine ⟨fs'', ?_, hopens'', (hfurnishes.mono hsub).trans hfurnishes'⟩
  rw [makeFoldersAround, if_neg (by simpa using hne), hmissing, hparent]
  simp only [hmade]
  exact hmade'

/-- Folders are made all along a way on which no file stands. -/
theorem canFurnish (htree : fs.IsTree) (fuel : Nat) (htrim : Path.Trim path)
    (hfuel : path.length ≤ fuel) (hfile : ∀ place ∈ fs.way path, fs.holdsFile place = false) :
    fs.CanFurnish fuel path := by
  induction fuel generalizing path with
  | zero =>
      rw [String.length_eq_zero_iff.mp (Nat.le_zero.mp hfuel)]
      exact fs.canFurnish_empty 0
  | succ fuel ih =>
      by_cases hne : path = ""
      · rw [hne]
        exact fs.canFurnish_empty (fuel + 1)
      · cases hparent : Path.parent? path with
        | none => exact canFurnish_of_nowhere htree fuel htrim hne (Path.parts_of_no_parent hparent)
        | some parent =>
            obtain ⟨habsolute, ⟨-, hnone⟩ | ⟨name, hleads, hparts⟩⟩ := Path.parent?_cases hparent
            · exact canFurnish_of_nowhere htree fuel htrim hne hnone
            · by_cases hopens : fs.Opens (fs.origin path) (Path.parts parent.toList)
              · -- The folder around is there, and only the last one is made.
                obtain ⟨place, hwalk⟩ := exists_walk_singleton fs
                  (lands (fs.origin path) (Path.parts parent.toList)) hleads
                have hplace : fs.place path = .ok place := by
                  rw [place_of_trim htrim hne, hparts, hopens.walk_append, hwalk]
                rw [CanFurnish, makeFoldersAround_succ fuel hne (.inl (createFolder_ne_missing hplace))]
                exact keep_ensureFolder_of_opens htree htrim hne hparts hleads hopens hfile
              · have horigin : fs.origin parent = fs.origin path := by
                  rw [origin, origin, habsolute]
                have haround := ih (Path.trim_parent? hparent)
                  (Nat.le_of_lt_succ ((Path.length_parent? hparent).trans_le hfuel))
                  fun other hother => hfile other (way_parent?_subset hparent fs hother)
                exact haround.further htree htrim hne hparent horigin hparts hleads hopens hfile

/-! ### Ways that are blocked -/

theorem climbs_filter_leads (fs : Files) (folder names : List String) :
    fs.climbs folder (names.filter Path.leads) = fs.climbs folder names := by
  induction folder, names using walk_induction fs with
  | nil folder => rfl
  | skip folder name rest hskip ih =>
      rw [List.filter_cons_of_neg (by simp [hskip]), climbs_skip hskip]
      exact ih
  | up folder rest ih =>
      rw [List.filter_cons_of_pos (by decide), climbs_up, climbs_up]
      exact ih
  | enter folder name rest hleads hup henter ih =>
      rw [List.filter_cons_of_pos hleads, climbs_enter hleads hup henter, climbs_enter hleads hup henter]
      exact ih
  | stop folder name rest hleads hup hstop =>
      have hback : (rest.filter Path.leads).contains ".." = rest.contains ".." := by
        rw [List.contains_eq_mem, List.contains_eq_mem, decide_eq_decide, List.mem_filter]
        exact and_iff_left (by decide)
      rw [List.filter_cons_of_pos hleads, climbs_stop hleads hup hstop, climbs_stop hleads hup hstop,
        hback]

theorem not_climbs_of_append {more : List String} (h : fs.climbs folder (names ++ more) = false) :
    fs.climbs folder names = false := by
  induction folder, names using walk_induction fs with
  | nil folder => rfl
  | skip folder name rest hskip ih =>
      rw [List.cons_append, climbs_skip hskip] at h
      rw [climbs_skip hskip]
      exact ih h
  | up folder rest ih =>
      rw [List.cons_append, climbs_up] at h
      rw [climbs_up]
      exact ih h
  | enter folder name rest hleads hup henter ih =>
      rw [List.cons_append, climbs_enter hleads hup henter] at h
      rw [climbs_enter hleads hup henter]
      exact ih h
  | stop folder name rest hleads hup hstop =>
      rw [List.cons_append, climbs_stop hleads hup hstop] at h
      rw [climbs_stop hleads hup hstop]
      cases hfree : ( fs.entry? (folder ++ [name])).isNone with
      | false => rfl
      | true =>
          rw [hfree, Bool.true_and, List.contains_eq_mem, decide_eq_false_iff_not, List.mem_append,
            not_or] at h
          rw [Bool.true_and, List.contains_eq_mem, decide_eq_false_iff_not]
          exact h.1

/-- What is made around a file is not at the place of the file, unless the way leads back there. -/
theorem ne_of_free {other : String} (hstays : fs.climbs folder (names ++ [name]) = false)
    (hfile : ∀ place ∈ passes folder names, fs.holdsFile place = false)
    (hfree : fs.entry? place = none) (hmem : place ∈ passes folder names) :
    place ≠ lands folder names ++ [other] := by
  induction folder, names using walk_induction fs with
  | nil folder => cases hmem
  | skip folder first rest hskip ih =>
      rw [List.cons_append, climbs_skip hskip] at hstays
      rw [passes_skip hskip] at hfile hmem
      rw [lands_skip hskip]
      exact ih hstays hfile hmem
  | up folder rest ih =>
      rw [List.cons_append, climbs_up] at hstays
      rw [passes_up] at hfile hmem
      rw [lands_up]
      exact ih hstays hfile hmem
  | enter folder first rest hleads hup henter ih =>
      rw [List.cons_append, climbs_enter hleads hup henter] at hstays
      rw [passes_name hleads hup, List.forall_mem_cons] at hfile
      rw [passes_name hleads hup] at hmem
      rw [lands_name hleads hup]
      rcases List.mem_cons.mp hmem with rfl | hmem
      · rw [henter] at hfree
        cases hfree
      · exact ih hstays hfile.2 hmem
  | stop folder first rest hleads hup hstop =>
      rw [passes_name hleads hup, List.forall_mem_cons] at hfile
      have hnone := (entry?_of_not_holdsFile hfile.1).resolve_right hstop
      rw [List.cons_append, climbs_stop hleads hup hstop, hnone, Option.isNone_none, Bool.true_and,
        List.contains_eq_mem, decide_eq_false_iff_not, List.mem_append, not_or] at hstays
      have hback : ".." ∉ first :: rest := by
        rw [List.mem_cons, not_or]
        exact ⟨Ne.symm hup, hstays.1⟩
      have hlength := (length_of_mem_passes hback hmem).2
      rintro rfl
      rw [List.length_append, List.length_singleton] at hlength
      omega

theorem leads_of_mem_parts {cs : List Char} (h : name ∈ Path.parts cs) : Path.leads name :=
  (List.mem_filter.mp h).2

theorem Sturdy.stays_parts (h : fs.Sturdy path) :
    fs.climbs (fs.origin path) (Path.parts path.toList) = false := by
  rw [parts_eq_filter, climbs_filter_leads]
  exact h.stays

/-- Where a file is in the way no folder is made. -/
theorem makeFoldersAround_of_blocked (htree : fs.IsTree) (fuel : Nat) (htrim : Path.Trim path)
    (hstays : fs.climbs (fs.origin path) (Path.parts path.toList) = false) {fault : FileFault}
    (h : fs.blocked? (fs.origin path) (Path.parts path.toList) = some fault) :
    fs.makeFoldersAround fuel path = (fs, .error fault) := by
  have hne : path ≠ "" := by
    rintro rfl
    cases h
  have hplace : fs.place path = fs.walk (fs.origin path) (Path.parts path.toList) :=
    place_of_trim htrim hne
  have hfails : fs.createFolder path = .error fault ∧ fault ≠ .missing ∧ fs.isFolder path = false := by
    rcases walk_of_blocked (fun _ => leads_of_mem_parts) htree hstays h with
      ⟨rfl, hwalk⟩ | ⟨rfl, place, content, hwalk, hfile⟩
    · rw [hwalk] at hplace
      exact ⟨createFolder_of_error hplace, by decide, by rw [isFolder, at?, hplace]; rfl⟩
    · rw [hwalk] at hplace
      exact ⟨createFolder_of_some hplace hfile, by decide, by rw [isFolder, at?_of_place hplace, hfile]; rfl⟩
  obtain ⟨hcreate, hfault, hfolder⟩ := hfails
  have hensure : fs.keep (fs.ensureFolder path) = (fs, .error fault) := by
    rw [ensureFolder, hcreate]
    simp only [hfolder, Bool.false_eq_true, if_false]
    rfl
  cases fuel with
  | zero =>
      rw [makeFoldersAround, if_neg (by simpa using hne)]
      exact hensure
  | succ fuel =>
      have hother : fs.createFolder path ≠ .error .missing := by
        rw [hcreate]
        exact fun hsame => hfault (Except.error.inj hsame)
      rw [makeFoldersAround_succ fuel hne (.inl hother)]
      exact hensure

end CrowdPad.Files
