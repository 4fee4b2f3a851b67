import CrowdPad.Proofs.Data.Result
import CrowdPad.Proofs.Files.Walk

/-! Paths that stay. A path that does not climb out of a folder that is not there leads where it led
before while the folders around it are made, while another file is written, and while a file is moved
into its own place. -/

namespace CrowdPad

/-- What reading comes to. -/
def FileEntry.read : FileEntry → Except FileFault String
  | .file content => .ok content
  | .folder => .error .isAFolder

namespace Files

variable {fs fs' : Files} {place : List String} {path : String}

/-! ### Paths -/

/-- Where the names of a path are walked from. -/
def origin (fs : Files) (path : String) : List String := if Path.isAbsolute path then [] else fs.home

/-- Whether a path of a tree does not climb out of a folder that is not there. -/
structure Sturdy (fs : Files) (path : String) : Prop where
  tree : fs.IsTree
  stays : fs.climbs (fs.origin path) (Path.names path) = false

/-- Whether a change leaves what a path leads to, and does not make the path climb. -/
structure Leaves (path : String) (fs fs' : Files) : Prop where
  same : fs'.at? path = fs.at? path
  sturdy : fs.Sturdy path → fs'.Sturdy path

theorem Leaves.refl (path : String) (fs : Files) : Leaves path fs fs := ⟨rfl, id⟩

theorem Leaves.trans {fs'' : Files} (h : Leaves path fs fs') (h' : Leaves path fs' fs'') :
    Leaves path fs fs'' :=
  ⟨h'.same.trans h.same, h'.sturdy ∘ h.sturdy⟩

theorem place_of_ne (hne : path ≠ "") (fs : Files) :
    fs.place path = fs.walk (fs.origin path) (Path.names path) := by
  rw [Files.place, if_neg (by simpa using hne)]
  rfl

theorem ne_empty_of_place (h : fs.place path = .ok place) : path ≠ "" := by
  rintro rfl
  cases h

theorem walk_of_place (h : fs.place path = .ok place) :
    fs.walk (fs.origin path) (Path.names path) = .ok place := by
  rw [← place_of_ne (ne_empty_of_place h)]
  exact h

theorem walk_parts (h : fs.place path = .ok place) :
    fs.walk (fs.origin path) (Path.parts path.toList) = .ok place :=
  walk_filter_leads (walk_of_place h)

theorem at?_eq_reach? (hne : path ≠ "") (fs : Files) :
    fs.at? path = fs.reach? (fs.origin path) (Path.names path) := by
  rw [at?, place_of_ne hne, reach?]
  cases fs.walk (fs.origin path) (Path.names path) <;> rfl

theorem at?_of_place (h : fs.place path = .ok place) : fs.at? path = fs.entry? place := by
  rw [at?, h]

theorem exists_of_at? {entry : FileEntry} (h : fs.at? path = some entry) :
    ∃ place, fs.place path = .ok place ∧ fs.entry? place = some entry := by
  cases hplace : fs.place path with
  | error fault =>
      rw [at?, hplace] at h
      cases h
  | ok place => exact ⟨place, rfl, at?_of_place hplace ▸ h⟩

theorem read_of_at? {entry : FileEntry} (h : fs.at? path = some entry) : fs.read path = entry.read := by
  obtain ⟨place, hplace, hentry⟩ := exists_of_at? h
  refine (bind_of_eq_ok hplace _).trans ?_
  simp only [hentry]
  cases entry <;> rfl

theorem IsTree.origin (h : fs.IsTree) (path : String) : fs.entry? (fs.origin path) = some .folder := by
  rw [Files.origin]
  split
  · rfl
  · exact h.home

/-- What is put where no folder was leaves the paths that do not lead there. A folder has to be new. -/
theorem Sturdy.leaves_put (h : fs.Sturdy path) {entry : FileEntry}
    (hbefore : fs.entry? place ≠ some .folder) (haround : fs.entry? place.dropLast = some .folder)
    (hfree : entry = .folder → fs.entry? place = none)
    (haway : fs.walk (fs.origin path) (Path.parts path.toList) ≠ .ok place) :
    Leaves path fs (fs.put place entry) := by
  obtain ⟨hreach, hclimbs⟩ := reach?_put h.tree hbefore hfree h.stays haway
  constructor
  · by_cases hne : path = ""
    · rw [hne]
      rfl
    · rw [at?_eq_reach? hne, at?_eq_reach? hne]
      exact hreach
  · intro _
    exact ⟨h.tree.of_differs (differs_put place entry fs) hbefore fun _ => haround, hclimbs⟩

/-! ### Folders around a path -/

/-- Whether a path goes further from where another one leads. -/
structure Within (path folder : String) : Prop where
  origin : Path.isAbsolute folder = Path.isAbsolute path
  further : ∃ name more, Path.leads name ∧
    Path.parts path.toList = Path.parts folder.toList ++ name :: more

theorem Within.trans {path folder outer : String} (h : Within path folder) (h' : Within folder outer) :
    Within path outer := by
  obtain ⟨name, more, -, hparts⟩ := h.further
  obtain ⟨first, rest, hleads, hparts'⟩ := h'.further
  refine ⟨h'.origin.trans h.origin, first, rest ++ name :: more, hleads, ?_⟩
  rw [hparts, hparts', List.append_assoc, List.cons_append]

theorem within_of_parent? {parent : String} (h : Path.parent? path = some parent) :
    parent = "" ∨ Within path parent := by
  obtain ⟨horigin, hparts⟩ := Path.parent?_cases h
  rcases hparts with ⟨hempty, -⟩ | ⟨name, hleads, hparts⟩
  · exact .inl hempty
  · exact .inr ⟨horigin, name, [], hleads, hparts⟩

theorem createFolder_eq_ok {target : String} (h : fs.createFolder target = .ok fs') :
    ∃ place, fs.place target = .ok place ∧ fs.entry? place = none ∧ fs' = fs.put place .folder := by
  obtain ⟨place, hplace, h⟩ := exists_of_bind_eq_ok h
  split at h
  · cases h
  · rename_i hfree
    cases h
    exact ⟨place, hplace, hfree, rfl⟩

theorem IsTree.createFolder (h : fs.IsTree) {target : String}
    (hmade : fs.createFolder target = .ok fs') : fs'.IsTree := by
  obtain ⟨place, hplace, hfree, rfl⟩ := createFolder_eq_ok hmade
  have hbefore : fs.entry? place ≠ some .folder := ne_folder_of_none hfree
  have haround := (around_of_walk h (h.origin target) (walk_of_place hplace)).resolve_left hbefore
  exact h.of_differs (differs_put place .folder fs) hbefore fun _ => haround

theorem IsTree.ensureFolder (h : fs.IsTree) (target : String) :
    (fs.keep (fs.ensureFolder target)).1.IsTree := by
  rw [Files.ensureFolder]
  split
  · rename_i hmade
    exact h.createFolder hmade
  · split
    · exact h
    · exact h

theorem IsTree.makeFoldersAround (h : fs.IsTree) (fuel : Nat) (target : String) :
    (fs.makeFoldersAround fuel target).1.IsTree := by
  induction fuel generalizing fs target with
  | zero =>
      rw [Files.makeFoldersAround]
      split
      · exact h
      · exact h.ensureFolder target
  | succ fuel ih =>
      rw [Files.makeFoldersAround]
      split
      · exact h
      · split
        · rename_i parent _ _
          have hmore := ih h parent
          split
          · rename_i hmade
            rw [hmade] at hmore
            exact hmore.ensureFolder target
          · rename_i hmade
            rwa [hmade] at hmore
        · exact h.ensureFolder target

/-- A folder is made without a change to what is in it, as nothing can be. -/
theorem Sturdy.leaves_createFolder (h : fs.Sturdy path) {target : String} (hin : Within path target)
    (hmade : fs.createFolder target = .ok fs') : Leaves path fs fs' := by
  obtain ⟨place, hplace, hfree, rfl⟩ := createFolder_eq_ok hmade
  have hwalk := walk_of_place hplace
  have hbefore : fs.entry? place ≠ some .folder := ne_folder_of_none hfree
  have haround := (around_of_walk h.tree (h.tree.origin target) hwalk).resolve_left hbefore
  refine h.leaves_put hbefore haround (fun _ => hfree) ?_
  -- A path that led to the new folder would pass through it, and so through a folder there before.
  intro hreached
  obtain ⟨name, more, hleads, hparts⟩ := hin.further
  have horigin : fs.origin path = fs.origin target := by
    rw [origin, origin, hin.origin]
  have hname : name ≠ "" := by
    rintro rfl
    exact absurd hleads (by decide)
  rw [hparts, horigin] at hreached
  obtain ⟨around, hto, hfolder, -⟩ := walk_append h.tree (h.tree.origin target) hname hreached
  rw [walk_parts hplace] at hto
  cases hto
  exact hbefore hfolder

theorem Sturdy.leaves_ensureFolder (h : fs.Sturdy path) {target : String} (hin : Within path target) :
    Leaves path fs (fs.keep (fs.ensureFolder target)).1 := by
  rw [ensureFolder]
  split
  · rename_i hmade
    exact h.leaves_createFolder hin hmade
  · split
    · exact .refl path fs
    · exact .refl path fs

theorem Sturdy.leaves_makeFoldersAround (h : fs.Sturdy path) (fuel : Nat) {target : String}
    (hin : target = "" ∨ Within path target) :
    Leaves path fs (fs.makeFoldersAround fuel target).1 := by
  induction fuel generalizing fs target with
  | zero =>
      rw [makeFoldersAround]
      split
      · exact .refl path fs
      · rename_i hne
        exact h.leaves_ensureFolder (hin.resolve_left (by simpa using hne))
  | succ fuel ih =>
      rw [makeFoldersAround]
      split
      · exact .refl path fs
      · rename_i hne
        have hin := hin.resolve_left (by simpa using hne)
        split
        · rename_i parent hparent
          have hmore := ih h ((within_of_parent? hparent).imp_right hin.trans)
          split
          · rename_i hmade
            rw [hmade] at hmore
            exact hmore.trans ((hmore.sturdy h).leaves_ensureFolder hin)
          · rename_i hmade
            rwa [hmade] at hmore
        · exact h.leaves_ensureFolder hin

/-! ### Files -/

variable {target content : String}

theorem write_eq_ok (h : fs.write path content = .ok fs') :
    ∃ place, fs.place path = .ok place ∧ fs.entry? place ≠ some .folder ∧
      ( fs.entry? place = none → Path.endsInSlash path = false) ∧
      fs' = fs.put place (.file content) := by
  obtain ⟨place, hplace, h⟩ := exists_of_bind_eq_ok h
  refine ⟨place, hplace, ?_⟩
  split at h
  · rename_i old hfile
    cases h
    rw [hfile]
    exact ⟨nofun, nofun, rfl⟩
  · cases h
  · rename_i hfree
    split at h
    · cases h
    · rename_i hslash
      cases h
      rw [hfree]
      exact ⟨nofun, fun _ => Bool.eq_false_iff.mpr hslash, rfl⟩

theorem rename_eq_ok (hsource : fs.at? path = some (.file content))
    (h : fs.rename path target = .ok fs') :
    ∃ source place, fs.place path = .ok source ∧ fs.entry? source = some (.file content) ∧
      fs.place target = .ok place ∧ fs.entry? place ≠ some .folder ∧ Path.endsInSlash target = false ∧
      fs' = (fs.drop source).put place (.file content) := by
  obtain ⟨source, hfrom, h⟩ := exists_of_bind_eq_ok h
  obtain ⟨place, hplace, h⟩ := exists_of_bind_eq_ok h
  rw [at?_of_place hfrom] at hsource
  simp only [hsource] at h
  split at h
  · cases h
  · rename_i hslash
    split at h
    · cases h
    · rename_i hbefore
      cases h
      exact ⟨source, place, hfrom, hsource, hplace, hbefore, Bool.eq_false_iff.mpr hslash, rfl⟩

/-- A file that comes where a path leads is what the path leads to, if the folders stay. -/
theorem IsTree.place_of_file (h : fs.IsTree)
    (hfolders : ∀ other, fs.entry? other = some .folder → fs'.entry? other = some .folder)
    (hhome : fs'.home = fs.home)
    (hplace : fs.place path = .ok place) (hfile : fs'.entry? place = some (.file content))
    (hslash : fs.entry? place = none → Path.endsInSlash path = false) :
    fs'.place path = .ok place := by
  have hne := ne_empty_of_place hplace
  have horigin : fs'.origin path = fs.origin path := by
    rw [Files.origin, Files.origin, hhome]
  rw [place_of_ne hne, horigin]
  exact walk_of_file h (h.origin path) hfolders hfile
    (fun hfree => Path.getLast?_names hne (hslash hfree)) (walk_of_place hplace)

theorem IsTree.write (h : fs.IsTree) (hwrite : fs.write path content = .ok fs') : fs'.IsTree := by
  obtain ⟨place, hplace, hbefore, -, rfl⟩ := write_eq_ok hwrite
  have haround := (around_of_walk h (h.origin path) (walk_of_place hplace)).resolve_left hbefore
  exact h.of_differs (differs_put place _ fs) hbefore fun _ => haround

/-- What is written is what the path leads to. -/
theorem IsTree.at?_write (h : fs.IsTree) (hwrite : fs.write path content = .ok fs') :
    fs'.at? path = some (.file content) := by
  obtain ⟨place, hplace, hbefore, hslash, rfl⟩ := write_eq_ok hwrite
  have hput := entry?_put fs (ne_nil_of_entry?_ne hbefore) (.file content)
  have hstays := h.place_of_file (fun _ => (differs_put place _ fs).folder_stays hbefore) rfl hplace
    hput hslash
  rw [at?_of_place hstays, hput]

/-- What is moved is what the path leads to. -/
theorem IsTree.at?_rename (h : fs.IsTree) (hsource : fs.at? path = some (.file content))
    (hrename : fs.rename path target = .ok fs') :
    fs'.Sturdy target ∧ fs'.at? target = some (.file content) := by
  obtain ⟨source, place, -, hfile, hplace, hbefore, hslash, rfl⟩ := rename_eq_ok hsource hrename
  have hsourceFile : fs.entry? source ≠ some .folder := ne_folder_of_file hfile
  -- Neither half of the move touches a folder, so the target leads where it led.
  have hdrop := differs_drop source fs
  have hbefore' : Files.entry? (fs.drop source) place ≠ some .folder := by
    by_cases hsame : place = source
    · rw [hsame, entry?_drop fs (ne_nil_of_entry?_ne hsourceFile)]
      exact nofun
    · rwa [hdrop.elsewhere place hsame]
  have hmove := differs_put place (.file content) (fs.drop source)
  have hput := entry?_put (fs.drop source) (ne_nil_of_entry?_ne hbefore) (.file content)
  have hfolders : ∀ other, fs.entry? other = some .folder →
      Files.entry? ((fs.drop source).put place (.file content)) other = some .folder :=
    fun _ hother => hmove.folder_stays hbefore' (hdrop.folder_stays hsourceFile hother)
  have hstays := h.place_of_file hfolders rfl hplace hput fun _ => hslash
  have haround := (around_of_walk h (h.origin target) (walk_of_place hplace)).resolve_left hbefore
  have htree : (fs.drop source).IsTree := by
    refine h.of_differs hdrop hsourceFile fun hsome => ?_
    rw [entry?_drop fs (ne_nil_of_entry?_ne hsourceFile)] at hsome
    cases hsome
  refine ⟨⟨?_, not_climbs_of_walk (walk_of_place hstays)⟩, ?_⟩
  · exact htree.of_differs hmove hbefore' fun _ => hdrop.folder_stays hsourceFile haround
  · rw [at?_of_place hstays, hput]

end Files

end CrowdPad
