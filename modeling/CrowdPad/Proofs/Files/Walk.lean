import CrowdPad.Proofs.Files.Path
import CrowdPad.Proofs.Files.Tree

/-! Walks in a tree of files. A walk passes through folders only, and what is put where it does not lead
does not change it, unless it climbs out of a folder that was not there. -/

namespace CrowdPad.Files

/-! ### Walks -/

variable {fs fs' : Files} {place folder : List String} {name : String} {names rest : List String}

theorem walk_skip (h : Path.leads name = false) :
    fs.walk folder (name :: rest) = fs.walk folder rest := by
  have hskip : (name = "" || name = ".") = true := by
    simp only [Path.leads, Bool.and_eq_false_iff, bne_eq_false_iff_eq] at h
    simpa using h
  rw [walk, if_pos hskip]

theorem walk_up : fs.walk folder (".." :: rest) = fs.walk folder.dropLast rest := by
  rw [walk, if_neg (by decide), if_pos rfl]

section

variable (hleads : Path.leads name) (hup : name ≠ "..")

include hleads hup

theorem walk_name : fs.walk folder (name :: rest) =
    match fs.entry? (folder ++ [name]) with
    | some .folder => fs.walk (folder ++ [name]) rest
    | some (.file _) => if rest.isEmpty then .ok (folder ++ [name]) else .error .notAFolder
    | none => if rest.all String.isEmpty then .ok (folder ++ [name]) else .error .missing := by
  have hskip : ¬(name = "" || name = ".") = true := by
    simp only [Path.leads, Bool.and_eq_true, bne_iff_ne] at hleads
    simpa using hleads
  rw [walk, if_neg hskip]
  exact if_neg hup

theorem walk_enter (h : fs.entry? (folder ++ [name]) = some .folder) :
    fs.walk folder (name :: rest) = fs.walk (folder ++ [name]) rest := by
  rw [walk_name hleads hup, h]

/-- Where a walk meets no folder, it ends there or nowhere. -/
theorem walk_stop (h : fs.entry? (folder ++ [name]) ≠ some .folder)
    (hwalk : fs.walk folder (name :: rest) = .ok place) :
    place = folder ++ [name] ∧ rest.all String.isEmpty ∧ (rest ≠ [] → fs.entry? place = none) := by
  rw [walk_name hleads hup] at hwalk
  split at hwalk
  · rename_i hfolder
    exact absurd hfolder h
  · split at hwalk
    · rename_i hend
      cases hwalk
      rw [List.isEmpty_iff] at hend
      exact ⟨rfl, by rw [hend]; rfl, fun hrest => absurd hend hrest⟩
    · cases hwalk
  · rename_i hfree
    split at hwalk
    · rename_i hend
      cases hwalk
      exact ⟨rfl, hend, fun _ => hfree⟩
    · cases hwalk

end

/-- Names are walked by passing them over, going back, going into a folder, or stopping where there is
none. -/
@[elab_as_elim]
theorem walk_induction (fs : Files) {motive : List String → List String → Prop}
    (nil : ∀ folder, motive folder [])
    (skip : ∀ folder name rest, Path.leads name = false → motive folder rest →
      motive folder (name :: rest))
    (up : ∀ folder rest, motive folder.dropLast rest → motive folder (".." :: rest))
    (enter : ∀ folder name rest, Path.leads name → name ≠ ".." →
      fs.entry? (folder ++ [name]) = some .folder → motive (folder ++ [name]) rest →
        motive folder (name :: rest))
    (stop : ∀ folder name rest, Path.leads name → name ≠ ".." →
      fs.entry? (folder ++ [name]) ≠ some .folder → motive folder (name :: rest))
    (folder names : List String) : motive folder names := by
  induction names generalizing folder with
  | nil => exact nil folder
  | cons name rest ih =>
      by_cases hleads : Path.leads name
      · by_cases hup : name = ".."
        · rw [hup]
          exact up folder rest (ih _)
        · by_cases henter : fs.entry? (folder ++ [name]) = some .folder
          · exact enter folder name rest hleads hup henter (ih _)
          · exact stop folder name rest hleads hup henter
      · exact skip folder name rest (Bool.eq_false_iff.mpr hleads) (ih _)

/-- Empty names lead nowhere. -/
theorem filter_leads_of_isEmpty (hall : names.all String.isEmpty) : names.filter Path.leads = [] := by
  rw [List.filter_eq_nil_iff]
  intro name hname
  rw [String.isEmpty_iff.mp (List.all_eq_true.mp hall name hname)]
  decide

/-- Names that lead nowhere can be left out. -/
theorem walk_filter_leads (h : fs.walk folder names = .ok place) :
    fs.walk folder (names.filter Path.leads) = .ok place := by
  induction folder, names using walk_induction fs with
  | nil => exact h
  | skip folder name rest hskip ih =>
      rw [walk_skip hskip] at h
      rw [List.filter_cons_of_neg (by simp [hskip])]
      exact ih h
  | up folder rest ih =>
      rw [walk_up] at h
      rw [List.filter_cons_of_pos (by decide), walk_up]
      exact ih h
  | enter folder name rest hleads hup henter ih =>
      rw [walk_enter hleads hup henter] at h
      rw [List.filter_cons_of_pos hleads, walk_enter hleads hup henter]
      exact ih h
  | stop folder name rest hleads hup hstop =>
      obtain ⟨rfl, hall, -⟩ := walk_stop hleads hup hstop h
      rw [List.filter_cons_of_pos hleads, filter_leads_of_isEmpty hall, walk_name hleads hup]
      split
      · rename_i hfolder
        exact absurd hfolder hstop
      · rfl
      · rfl

section

variable (htree : fs.IsTree) (hfolder : fs.entry? folder = some .folder)

include htree hfolder

/-- A walk ends at a folder or in one. -/
theorem around_of_walk (h : fs.walk folder names = .ok place) :
    fs.entry? place = some .folder ∨ fs.entry? place.dropLast = some .folder := by
  induction folder, names using walk_induction fs with
  | nil folder =>
      cases h
      exact .inl hfolder
  | skip folder name rest hskip ih =>
      rw [walk_skip hskip] at h
      exact ih hfolder h
  | up folder rest ih =>
      rw [walk_up] at h
      exact ih (htree.dropLast hfolder) h
  | enter folder name rest hleads hup henter ih =>
      rw [walk_enter hleads hup henter] at h
      exact ih henter h
  | stop folder name rest hleads hup hstop =>
      obtain ⟨rfl, -, -⟩ := walk_stop hleads hup hstop h
      rw [List.dropLast_concat]
      exact .inr hfolder

/-- A walk passes through folders only. -/
theorem walk_append {name : String} {more : List String} (hname : name ≠ "")
    (h : fs.walk folder (names ++ name :: more) = .ok place) :
    ∃ around, fs.walk folder names = .ok around ∧ fs.entry? around = some .folder ∧
      fs.walk around (name :: more) = .ok place := by
  induction folder, names using walk_induction fs with
  | nil folder => exact ⟨folder, rfl, hfolder, h⟩
  | skip folder first rest hskip ih =>
      rw [List.cons_append, walk_skip hskip] at h
      rw [walk_skip hskip]
      exact ih hfolder h
  | up folder rest ih =>
      rw [List.cons_append, walk_up] at h
      rw [walk_up]
      exact ih (htree.dropLast hfolder) h
  | enter folder first rest hleads hup henter ih =>
      rw [List.cons_append, walk_enter hleads hup henter] at h
      rw [walk_enter hleads hup henter]
      exact ih henter h
  | stop folder first rest hleads hup hstop =>
      rw [List.cons_append] at h
      obtain ⟨-, hall, -⟩ := walk_stop hleads hup hstop h
      have hempty := List.all_eq_true.mp hall name (by simp)
      exact absurd (String.isEmpty_iff.mp hempty) hname

/-- The place of a name in a folder. -/
theorem walk_concat {name : String} (hleads : Path.leads name) (hup : name ≠ "..")
    (h : fs.walk folder (names ++ [name]) = .ok place) :
    ∃ around, fs.walk folder names = .ok around ∧ fs.entry? around = some .folder ∧
      place = around ++ [name] := by
  have hname : name ≠ "" := by
    rintro rfl
    exact absurd hleads (by decide)
  obtain ⟨around, haround, hin, hlast⟩ := walk_append htree hfolder hname h
  refine ⟨around, haround, hin, ?_⟩
  by_cases henter : fs.entry? (around ++ [name]) = some .folder
  · rw [walk_enter hleads hup henter] at hlast
    exact (Except.ok.inj hlast).symm
  · exact (walk_stop hleads hup henter hlast).1

/-- The way back leads to a folder. -/
theorem walk_back (h : fs.walk folder (names ++ [".."]) = .ok place) :
    fs.entry? place = some .folder := by
  obtain ⟨around, -, hin, hlast⟩ := walk_append htree hfolder (by decide) h
  rw [walk_up] at hlast
  cases hlast
  exact htree.dropLast hin

/-- A walk to a file goes on as before as long as the folders stay. -/
theorem walk_of_file {content : String}
    (hfolders : ∀ other, fs.entry? other = some .folder → fs'.entry? other = some .folder)
    (hfile : fs'.entry? place = some (.file content))
    (hend : fs.entry? place = none → names.getLast? ≠ some "")
    (h : fs.walk folder names = .ok place) : fs'.walk folder names = .ok place := by
  have hmore {name : String} {rest : List String} (hne : (name :: rest).getLast? ≠ some "") :
      rest.getLast? ≠ some "" := by
    intro hlast
    rw [List.getLast?_cons, hlast] at hne
    exact hne rfl
  induction folder, names using walk_induction fs with
  | nil => exact h
  | skip folder name rest hskip ih =>
      rw [walk_skip hskip] at h ⊢
      exact ih hfolder (fun hfree => hmore (hend hfree)) h
  | up folder rest ih =>
      rw [walk_up] at h ⊢
      exact ih (htree.dropLast hfolder) (fun hfree => hmore (hend hfree)) h
  | enter folder name rest hleads hup henter ih =>
      rw [walk_enter hleads hup henter] at h
      rw [walk_enter hleads hup (hfolders _ henter)]
      exact ih henter (fun hfree => hmore (hend hfree)) h
  | stop folder name rest hleads hup hstop =>
      obtain ⟨rfl, hall, hfree⟩ := walk_stop hleads hup hstop h
      -- Only slashes can follow, and none do: a place that is free was asked for without one.
      have hlast : rest = [] := by
        by_contra hne
        have hempty := List.all_eq_true.mp hall _ (List.getLast_mem hne)
        have hlast : rest.getLast? = some "" := by
          rw [List.getLast?_eq_some_getLast hne, String.isEmpty_iff.mp hempty]
        exact hmore (hend (hfree hne)) hlast
      rw [walk_name hleads hup, hfile, hlast]
      rfl

end

/-! ### Where walks lead -/

/-- What a walk leads to. -/
def reach? (fs : Files) (folder names : List String) : Option FileEntry :=
  (fs.walk folder names).toOption.bind fs.entry?

/-- Whether a walk climbs out of a folder that is not there. -/
def climbs (fs : Files) (folder : List String) : List String → Bool
  | [] => false
  | name :: rest =>
    if Path.leads name = false then climbs fs folder rest
    else if name = ".." then climbs fs folder.dropLast rest
    else
      match fs.entry? (folder ++ [name]) with
      | some .folder => climbs fs (folder ++ [name]) rest
      | some (.file _) => false
      | none => rest.contains ".."

theorem reach?_skip (h : Path.leads name = false) :
    fs.reach? folder (name :: rest) = fs.reach? folder rest := by
  rw [reach?, walk_skip h, reach?]

theorem reach?_up : fs.reach? folder (".." :: rest) = fs.reach? folder.dropLast rest := by
  rw [reach?, walk_up, reach?]

theorem climbs_skip (h : Path.leads name = false) :
    fs.climbs folder (name :: rest) = fs.climbs folder rest := by
  rw [climbs, if_pos h]

theorem climbs_up : fs.climbs folder (".." :: rest) = fs.climbs folder.dropLast rest := by
  rw [climbs, if_neg (by decide), if_pos rfl]

section

variable (hleads : Path.leads name) (hup : name ≠ "..")

include hleads hup

theorem reach?_enter (h : fs.entry? (folder ++ [name]) = some .folder) :
    fs.reach? folder (name :: rest) = fs.reach? (folder ++ [name]) rest := by
  rw [reach?, walk_enter hleads hup h, reach?]

theorem reach?_stop (h : fs.entry? (folder ++ [name]) ≠ some .folder) :
    fs.reach? folder (name :: rest) = if rest.isEmpty then fs.entry? (folder ++ [name]) else none := by
  rw [reach?, walk_name hleads hup]
  split
  · rename_i hfolder
    exact absurd hfolder h
  · split
    · rfl
    · rfl
  · rename_i hfree
    rw [hfree]
    split
    · rw [ite_self]
      exact hfree
    · rw [ite_self]
      rfl

theorem climbs_enter (h : fs.entry? (folder ++ [name]) = some .folder) :
    fs.climbs folder (name :: rest) = fs.climbs (folder ++ [name]) rest := by
  rw [climbs, if_neg (by simp [hleads]), if_neg hup, h]

theorem climbs_stop (h : fs.entry? (folder ++ [name]) ≠ some .folder) :
    fs.climbs folder (name :: rest) =
      (( fs.entry? (folder ++ [name])).isNone && rest.contains "..") := by
  rw [climbs, if_neg (by simp [hleads]), if_neg hup]
  split
  · rename_i hfolder
    exact absurd hfolder h
  · rename_i hfile
    rw [hfile]
    rfl
  · rename_i hfree
    rw [hfree]
    rfl

end

theorem not_climbs_of_walk (h : fs.walk folder names = .ok place) : fs.climbs folder names = false := by
  induction folder, names using walk_induction fs with
  | nil => rfl
  | skip folder name rest hskip ih =>
      rw [walk_skip hskip] at h
      rw [climbs_skip hskip]
      exact ih h
  | up folder rest ih =>
      rw [walk_up] at h
      rw [climbs_up]
      exact ih h
  | enter folder name rest hleads hup henter ih =>
      rw [walk_enter hleads hup henter] at h
      rw [climbs_enter hleads hup henter]
      exact ih h
  | stop folder name rest hleads hup hstop =>
      obtain ⟨-, hall, -⟩ := walk_stop hleads hup hstop h
      have hback : rest.contains ".." = false := by
        rw [List.contains_eq_mem, decide_eq_false_iff_not]
        intro hmem
        exact absurd (List.all_eq_true.mp hall _ hmem) (by decide)
      rw [climbs_stop hleads hup hstop, hback, Bool.and_false]

/-- Names that go further from where there is nothing lead nowhere. -/
theorem reach?_below (hbelow : ∀ name, fs.entry? (folder ++ [name]) = none)
    (hback : ".." ∉ names) (hsome : ∃ name ∈ names, Path.leads name) :
    fs.reach? folder names = none ∧ fs.climbs folder names = false := by
  induction names with
  | nil =>
      obtain ⟨_, hmem, -⟩ := hsome
      exact absurd hmem List.not_mem_nil
  | cons name rest ih =>
      rw [List.mem_cons, not_or] at hback
      by_cases hleads : Path.leads name
      · have hstop : fs.entry? (folder ++ [name]) ≠ some .folder := ne_folder_of_none (hbelow name)
        rw [reach?_stop hleads (Ne.symm hback.1) hstop, climbs_stop hleads (Ne.symm hback.1) hstop,
          hbelow name]
        refine ⟨ite_self none, ?_⟩
        rw [List.contains_eq_mem, decide_eq_false hback.2, Bool.and_false]
      · have hskip := Bool.eq_false_iff.mpr hleads
        rw [reach?_skip hskip, climbs_skip hskip]
        refine ih hback.2 ?_
        obtain ⟨other, hother, hother'⟩ := hsome
        rcases List.mem_cons.mp hother with rfl | hmem
        · exact absurd hother' hleads
        · exact ⟨other, hmem, hother'⟩

/-- What is put where a walk met no folder, and from where the walk goes further. -/
theorem reach?_through_put (htree : fs.IsTree) {entry : FileEntry} (hleads : Path.leads name)
    (hup : name ≠ "..") (hbefore : fs.entry? (folder ++ [name]) ≠ some .folder)
    (hfree : entry = .folder → fs.entry? (folder ++ [name]) = none)
    (hclimbs : fs.climbs folder (name :: rest) = false) (hsome : ∃ other ∈ rest, Path.leads other) :
    (fs.put (folder ++ [name]) entry).reach? folder (name :: rest) = fs.reach? folder (name :: rest) ∧
      (fs.put (folder ++ [name]) entry).climbs folder (name :: rest) = false := by
  have hput := entry?_put fs (ne_nil_of_entry?_ne hbefore) entry
  have hrest : rest.isEmpty = false := by
    obtain ⟨other, hother, -⟩ := hsome
    exact List.isEmpty_eq_false_iff_exists_mem.mpr ⟨other, hother⟩
  rw [climbs_stop hleads hup hbefore] at hclimbs
  rw [reach?_stop hleads hup hbefore, hrest]
  cases entry with
  | folder =>
      -- The walk used to stop for want of a folder. Now it goes on into an empty one, with no way back.
      rw [hfree rfl, Option.isNone_none, Bool.true_and, List.contains_eq_mem,
        decide_eq_false_iff_not] at hclimbs
      have hbelow : ∀ other,
          Files.entry? (fs.put (folder ++ [name]) .folder) (folder ++ [name] ++ [other]) = none := by
        intro other
        rw [(differs_put _ _ _).elsewhere _ (by simp)]
        by_contra hthere
        have haround := htree.around _ other (Option.isSome_iff_ne_none.mpr hthere)
        rw [hfree rfl] at haround
        cases haround
      rw [reach?_enter hleads hup hput, climbs_enter hleads hup hput]
      exact reach?_below hbelow hclimbs hsome
  | file content =>
      -- A file stops the walk as what was there did, since names are left.
      have hstop : Files.entry? (fs.put (folder ++ [name]) (.file content)) (folder ++ [name]) ≠
          some .folder := by
        rw [hput]
        exact nofun
      rw [reach?_stop hleads hup hstop, climbs_stop hleads hup hstop, hrest, hput]
      exact ⟨rfl, rfl⟩

/-- What is put where no folder was leaves the walks that do not lead there. A folder has to be new. -/
theorem reach?_put (htree : fs.IsTree) {entry : FileEntry} (hbefore : fs.entry? place ≠ some .folder)
    (hfree : entry = .folder → fs.entry? place = none) (hclimbs : fs.climbs folder names = false)
    (haway : fs.walk folder (names.filter Path.leads) ≠ .ok place) :
    (fs.put place entry).reach? folder names = fs.reach? folder names ∧
      (fs.put place entry).climbs folder names = false := by
  have hdiffers := differs_put place entry fs
  induction folder, names using walk_induction fs with
  | nil folder =>
      exact ⟨hdiffers.elsewhere folder fun hsame => haway (congrArg Except.ok hsame), rfl⟩
  | skip folder name rest hskip ih =>
      rw [climbs_skip hskip] at hclimbs
      rw [List.filter_cons_of_neg (by simp [hskip])] at haway
      rw [reach?_skip hskip, reach?_skip hskip, climbs_skip hskip]
      exact ih hclimbs haway
  | up folder rest ih =>
      rw [climbs_up] at hclimbs
      rw [List.filter_cons_of_pos (by decide), walk_up] at haway
      rw [reach?_up, reach?_up, climbs_up]
      exact ih hclimbs haway
  | enter folder name rest hleads hup henter ih =>
      have henter' := hdiffers.folder_stays hbefore henter
      rw [climbs_enter hleads hup henter] at hclimbs
      rw [List.filter_cons_of_pos hleads, walk_enter hleads hup henter] at haway
      rw [reach?_enter hleads hup henter, reach?_enter hleads hup henter',
        climbs_enter hleads hup henter']
      exact ih hclimbs haway
  | stop folder name rest hleads hup hstop =>
      by_cases hsame : folder ++ [name] = place
      · subst hsame
        refine reach?_through_put htree hleads hup hbefore hfree hclimbs ?_
        -- If no name that leads further followed, the walk would lead to the place itself.
        by_contra hnone
        have hrest : rest.filter Path.leads = [] :=
          List.filter_eq_nil_iff.mpr fun other hother hleads => hnone ⟨other, hother, hleads⟩
        rw [List.filter_cons_of_pos hleads, hrest, walk_name hleads hup] at haway
        split at haway
        · rename_i hfolder
          exact hbefore hfolder
        · exact haway rfl
        · exact haway rfl
      · have hentry := hdiffers.elsewhere _ hsame
        have hstop' : Files.entry? (fs.put place entry) (folder ++ [name]) ≠ some .folder := by
          rwa [hentry]
        rw [climbs_stop hleads hup hstop] at hclimbs
        rw [reach?_stop hleads hup hstop, reach?_stop hleads hup hstop',
          climbs_stop hleads hup hstop', hentry]
        exact ⟨rfl, hclimbs⟩

end CrowdPad.Files
