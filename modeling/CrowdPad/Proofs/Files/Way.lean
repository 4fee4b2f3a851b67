import CrowdPad.Proofs.Files.Sturdy

/-! The way of a path: the places that its names pass through, told by the names alone. Where a walk
comes through depends on nothing but what stands there, so that a change away from the way of a path
leaves the path, and what is made of folders on the way is told by the first file that stands there. -/

namespace CrowdPad.Files

variable {fs fs' : Files} {place folder : List String} {name : String} {names rest : List String}

/-! ### Ways -/

/-- The places that names pass through from a folder. -/
def passes (folder : List String) : List String → List (List String)
  | [] => []
  | name :: rest =>
    if Path.leads name = false then passes folder rest
    else if name = ".." then passes folder.dropLast rest
    else (folder ++ [name]) :: passes (folder ++ [name]) rest

/-- Where names lead from a folder if nothing is in the way. -/
def lands (folder : List String) : List String → List String
  | [] => folder
  | name :: rest =>
    if Path.leads name = false then lands folder rest
    else if name = ".." then lands folder.dropLast rest
    else lands (folder ++ [name]) rest

theorem passes_skip (h : Path.leads name = false) :
    passes folder (name :: rest) = passes folder rest := by
  rw [passes, if_pos h]

theorem passes_up : passes folder (".." :: rest) = passes folder.dropLast rest := by
  rw [passes, if_neg (by decide), if_pos rfl]

theorem passes_name (hleads : Path.leads name) (hup : name ≠ "..") :
    passes folder (name :: rest) = (folder ++ [name]) :: passes (folder ++ [name]) rest := by
  rw [passes, if_neg (by simp [hleads]), if_neg hup]

theorem lands_skip (h : Path.leads name = false) : lands folder (name :: rest) = lands folder rest := by
  rw [lands, if_pos h]

theorem lands_up : lands folder (".." :: rest) = lands folder.dropLast rest := by
  rw [lands, if_neg (by decide), if_pos rfl]

theorem lands_name (hleads : Path.leads name) (hup : name ≠ "..") :
    lands folder (name :: rest) = lands (folder ++ [name]) rest := by
  rw [lands, if_neg (by simp [hleads]), if_neg hup]

/-- Names are followed by passing them over, going back, or going on. -/
@[elab_as_elim]
theorem way_induction {motive : List String → List String → Prop}
    (nil : ∀ folder, motive folder [])
    (skip : ∀ folder name rest, Path.leads name = false → motive folder rest →
      motive folder (name :: rest))
    (up : ∀ folder rest, motive folder.dropLast rest → motive folder (".." :: rest))
    (on : ∀ folder name rest, Path.leads name → name ≠ ".." → motive (folder ++ [name]) rest →
      motive folder (name :: rest))
    (folder names : List String) : motive folder names := by
  induction names generalizing folder with
  | nil => exact nil folder
  | cons name rest ih =>
      by_cases hleads : Path.leads name
      · by_cases hup : name = ".."
        · rw [hup]
          exact up folder rest (ih _)
        · exact on folder name rest hleads hup (ih _)
      · exact skip folder name rest (Bool.eq_false_iff.mpr hleads) (ih _)

theorem way_append (folder names rest : List String) :
    passes folder (names ++ rest) = passes folder names ++ passes (lands folder names) rest ∧
      lands folder (names ++ rest) = lands (lands folder names) rest := by
  induction folder, names using way_induction with
  | nil folder => exact ⟨rfl, rfl⟩
  | skip folder name more hskip ih =>
      rw [List.cons_append, passes_skip hskip, passes_skip hskip, lands_skip hskip, lands_skip hskip]
      exact ih
  | up folder more ih =>
      rw [List.cons_append, passes_up, passes_up, lands_up, lands_up]
      exact ih
  | on folder name more hleads hup ih =>
      rw [List.cons_append, passes_name hleads hup, passes_name hleads hup, lands_name hleads hup,
        lands_name hleads hup, List.cons_append, ih.1]
      exact ⟨rfl, ih.2⟩

/-- Names that lead nowhere can be left out. -/
theorem way_filter_leads (folder names : List String) :
    passes folder (names.filter Path.leads) = passes folder names ∧
      lands folder (names.filter Path.leads) = lands folder names := by
  induction folder, names using way_induction with
  | nil folder => exact ⟨rfl, rfl⟩
  | skip folder name rest hskip ih =>
      rw [List.filter_cons_of_neg (by simp [hskip]), passes_skip hskip, lands_skip hskip]
      exact ih
  | up folder rest ih =>
      rw [List.filter_cons_of_pos (by decide), passes_up, passes_up, lands_up, lands_up]
      exact ih
  | on folder name rest hleads hup ih =>
      rw [List.filter_cons_of_pos hleads, passes_name hleads hup, passes_name hleads hup,
        lands_name hleads hup, lands_name hleads hup, ih.1]
      exact ⟨rfl, ih.2⟩

/-- Without a way back, names lead further and further. -/
theorem length_of_mem_passes (hback : ".." ∉ names) (hmem : place ∈ passes folder names) :
    folder.length < place.length ∧ place.length ≤ (lands folder names).length := by
  have hlands {folder names : List String} (hback : ".." ∉ names) :
      folder.length ≤ (lands folder names).length := by
    induction folder, names using way_induction with
    | nil folder => exact le_rfl
    | skip folder name rest hskip ih =>
        rw [lands_skip hskip]
        exact ih fun hmem => hback (List.mem_cons_of_mem _ hmem)
    | up folder rest => exact absurd (List.mem_cons_self ..) hback
    | on folder name rest hleads hup ih =>
        rw [lands_name hleads hup]
        have hmore := ih fun hmem => hback (List.mem_cons_of_mem _ hmem)
        rw [List.length_append, List.length_singleton] at hmore
        omega
  induction folder, names using way_induction with
  | nil folder => cases hmem
  | skip folder name rest hskip ih =>
      rw [passes_skip hskip] at hmem
      rw [lands_skip hskip]
      exact ih (fun hmem => hback (List.mem_cons_of_mem _ hmem)) hmem
  | up folder rest => exact absurd (List.mem_cons_self ..) hback
  | on folder name rest hleads hup ih =>
      have hrest : ".." ∉ rest := fun hmem => hback (List.mem_cons_of_mem _ hmem)
      rw [passes_name hleads hup] at hmem
      rw [lands_name hleads hup]
      rcases List.mem_cons.mp hmem with rfl | hmem
      · refine ⟨?_, hlands hrest⟩
        rw [List.length_append, List.length_singleton]
        omega
      · have hmore := ih hrest hmem
        rw [List.length_append, List.length_singleton] at hmore
        omega

/-- Nothing stands further on from a free place. -/
theorem free_beyond (htree : fs.IsTree) (hfree : fs.entry? folder = none) (hback : ".." ∉ names)
    (hmem : place ∈ passes folder names) : fs.entry? place = none := by
  induction folder, names using way_induction with
  | nil folder => cases hmem
  | skip folder name rest hskip ih =>
      rw [passes_skip hskip] at hmem
      exact ih hfree (fun hmem => hback (List.mem_cons_of_mem _ hmem)) hmem
  | up folder rest => exact absurd (List.mem_cons_self ..) hback
  | on folder name rest hleads hup ih =>
      have hbelow : fs.entry? (folder ++ [name]) = none := by
        by_contra hthere
        have haround := htree.around folder name (Option.isSome_iff_ne_none.mpr hthere)
        rw [hfree] at haround
        cases haround
      rw [passes_name hleads hup] at hmem
      rcases List.mem_cons.mp hmem with rfl | hmem
      · exact hbelow
      · exact ih hbelow (fun hmem => hback (List.mem_cons_of_mem _ hmem)) hmem

/-! ### Walks along a way -/

section

variable (hsame : ∀ place ∈ passes folder names, fs'.entry? place = fs.entry? place)

include hsame

/-- A walk depends on what stands on its way. -/
theorem walk_congr : fs'.walk folder names = fs.walk folder names := by
  induction folder, names using way_induction with
  | nil folder => rfl
  | skip folder name rest hskip ih =>
      rw [passes_skip hskip] at hsame
      rw [walk_skip hskip, walk_skip hskip]
      exact ih hsame
  | up folder rest ih =>
      rw [passes_up] at hsame
      rw [walk_up, walk_up]
      exact ih hsame
  | on folder name rest hleads hup ih =>
      rw [passes_name hleads hup] at hsame
      rw [walk_name hleads hup, walk_name hleads hup, hsame _ (List.mem_cons_self ..),
        ih fun other hother => hsame other (List.mem_cons_of_mem _ hother)]

theorem climbs_congr : fs'.climbs folder names = fs.climbs folder names := by
  induction folder, names using way_induction with
  | nil folder => rfl
  | skip folder name rest hskip ih =>
      rw [passes_skip hskip] at hsame
      rw [climbs_skip hskip, climbs_skip hskip]
      exact ih hsame
  | up folder rest ih =>
      rw [passes_up] at hsame
      rw [climbs_up, climbs_up]
      exact ih hsame
  | on folder name rest hleads hup ih =>
      rw [passes_name hleads hup] at hsame
      have hentry := hsame _ (List.mem_cons_self ..)
      by_cases henter : fs.entry? (folder ++ [name]) = some .folder
      · rw [climbs_enter hleads hup henter, climbs_enter hleads hup (hentry.trans henter)]
        exact ih fun other hother => hsame other (List.mem_cons_of_mem _ hother)
      · rw [climbs_stop hleads hup henter, climbs_stop hleads hup (by rwa [hentry]), hentry]

end

/-- A walk that ends anywhere ends where its names lead. -/
theorem eq_lands_of_walk (h : fs.walk folder names = .ok place) : place = lands folder names := by
  induction folder, names using walk_induction fs with
  | nil folder =>
      cases h
      rfl
  | skip folder name rest hskip ih =>
      rw [walk_skip hskip] at h
      rw [lands_skip hskip]
      exact ih h
  | up folder rest ih =>
      rw [walk_up] at h
      rw [lands_up]
      exact ih h
  | enter folder name rest hleads hup henter ih =>
      rw [walk_enter hleads hup henter] at h
      rw [lands_name hleads hup]
      exact ih h
  | stop folder name rest hleads hup hstop =>
      obtain ⟨rfl, hall, -⟩ := walk_stop hleads hup hstop h
      have hlands := (way_filter_leads (folder ++ [name]) rest).2
      rw [filter_leads_of_isEmpty hall] at hlands
      rw [lands_name hleads hup]
      exact hlands

/-- A walk that ends at no folder ends on its way. -/
theorem lands_of_walk (htree : fs.IsTree) (hfolder : fs.entry? folder = some .folder)
    (h : fs.walk folder names = .ok place) (hplace : fs.entry? place ≠ some .folder) :
    place = lands folder names ∧ place ∈ passes folder names := by
  refine ⟨eq_lands_of_walk h, ?_⟩
  induction folder, names using walk_induction fs with
  | nil folder =>
      cases h
      exact absurd hfolder hplace
  | skip folder name rest hskip ih =>
      rw [walk_skip hskip] at h
      rw [passes_skip hskip]
      exact ih hfolder h
  | up folder rest ih =>
      rw [walk_up] at h
      rw [passes_up]
      exact ih (htree.dropLast hfolder) h
  | enter folder name rest hleads hup henter ih =>
      rw [walk_enter hleads hup henter] at h
      rw [passes_name hleads hup]
      exact List.mem_cons_of_mem _ (ih henter h)
  | stop folder name rest hleads hup hstop =>
      obtain ⟨rfl, -, -⟩ := walk_stop hleads hup hstop h
      rw [passes_name hleads hup]
      exact List.mem_cons_self ..

/-! ### Open ways -/

/-- Whether there are folders all along the way of some names. -/
def Opens (fs : Files) (folder names : List String) : Prop :=
  ∀ place ∈ passes folder names, fs.entry? place = some .folder

theorem Opens.walk_append (h : fs.Opens folder names) (rest : List String) :
    fs.walk folder (names ++ rest) = fs.walk (lands folder names) rest := by
  induction folder, names using way_induction with
  | nil folder => rfl
  | skip folder name more hskip ih =>
      rw [Opens, passes_skip hskip] at h
      rw [List.cons_append, walk_skip hskip, lands_skip hskip]
      exact ih h
  | up folder more ih =>
      rw [Opens, passes_up] at h
      rw [List.cons_append, walk_up, lands_up]
      exact ih h
  | on folder name more hleads hup ih =>
      rw [Opens, passes_name hleads hup] at h
      rw [List.cons_append, walk_enter hleads hup (h _ (List.mem_cons_self ..)), lands_name hleads hup]
      exact ih fun other hother => h other (List.mem_cons_of_mem _ hother)

theorem Opens.walk (h : fs.Opens folder names) : fs.walk folder names = .ok (lands folder names) := by
  have hwalk := h.walk_append []
  rwa [List.append_nil] at hwalk

theorem Opens.lands (htree : fs.IsTree) (hfolder : fs.entry? folder = some .folder)
    (h : fs.Opens folder names) : fs.entry? (lands folder names) = some .folder := by
  by_contra hplace
  obtain ⟨hlands, hmem⟩ := lands_of_walk htree hfolder h.walk hplace
  exact hplace (h _ hmem)

/-! ### Files on a way -/

/-- Whether a file stands at a place. -/
def holdsFile (fs : Files) (place : List String) : Bool :=
  match fs.entry? place with
  | some (.file _) => true
  | _ => false

/-- What keeps folders from being made along the way of names, all of which lead somewhere. -/
def blocked? (fs : Files) (folder : List String) : List String → Option FileFault
  | [] => none
  | name :: rest =>
    if name = ".." then blocked? fs folder.dropLast rest
    else if fs.holdsFile (folder ++ [name]) then some (if rest.isEmpty then .exists else .notAFolder)
    else blocked? fs (folder ++ [name]) rest

theorem blocked?_up : fs.blocked? folder (".." :: rest) = fs.blocked? folder.dropLast rest := by
  rw [blocked?, if_pos rfl]

theorem blocked?_name (hup : name ≠ "..") : fs.blocked? folder (name :: rest) =
    if fs.holdsFile (folder ++ [name]) then some (if rest.isEmpty then .exists else .notAFolder)
    else fs.blocked? (folder ++ [name]) rest := by
  rw [blocked?, if_neg hup]

theorem holdsFile_eq_false (h : fs.entry? place = none ∨ fs.entry? place = some .folder) :
    fs.holdsFile place = false := by
  rw [holdsFile]
  rcases h with h | h
  · rw [h]
  · rw [h]

theorem entry?_of_holdsFile (h : fs.holdsFile place = true) : ∃ content,
    fs.entry? place = some (.file content) := by
  unfold holdsFile at h
  split at h
  · rename_i content hfile
    exact ⟨content, hfile⟩
  · cases h

/-- A place without a file is free, or a folder is there. -/
theorem entry?_of_not_holdsFile (h : fs.holdsFile place = false) :
    fs.entry? place = none ∨ fs.entry? place = some .folder := by
  unfold holdsFile at h
  split at h
  · cases h
  · rename_i hfile
    cases hentry : fs.entry? place with
    | none => exact .inl rfl
    | some entry =>
        cases entry with
        | folder => exact .inr rfl
        | file content => exact absurd hentry (hfile content)

section

variable (hnames : ∀ name ∈ names, Path.leads name)

include hnames

theorem blocked?_eq_none_iff :
    fs.blocked? folder names = none ↔ ∀ place ∈ passes folder names, fs.holdsFile place = false := by
  induction names generalizing folder with
  | nil => exact ⟨fun _ _ hmem => absurd hmem List.not_mem_nil, fun _ => rfl⟩
  | cons name rest ih =>
      have ih {folder : List String} := @ih folder fun name hname =>
        hnames name (List.mem_cons_of_mem _ hname)
      by_cases hup : name = ".."
      · rw [hup, blocked?_up, passes_up]
        exact ih
      · rw [blocked?_name hup, passes_name (hnames name (List.mem_cons_self ..)) hup,
          List.forall_mem_cons, ← ih]
        cases fs.holdsFile (folder ++ [name]) <;> simp

theorem blocked?_congr
    (hsame : ∀ place ∈ passes folder names, fs'.holdsFile place = fs.holdsFile place) :
    fs'.blocked? folder names = fs.blocked? folder names := by
  induction names generalizing folder with
  | nil => rfl
  | cons name rest ih =>
      have ih {folder : List String} := @ih folder fun name hname =>
        hnames name (List.mem_cons_of_mem _ hname)
      by_cases hup : name = ".."
      · rw [hup, passes_up] at hsame
        rw [hup, blocked?_up, blocked?_up]
        exact ih hsame
      · rw [passes_name (hnames name (List.mem_cons_self ..)) hup] at hsame
        rw [blocked?_name hup, blocked?_name hup, hsame _ (List.mem_cons_self ..),
          ih fun other hother => hsame other (List.mem_cons_of_mem _ hother)]

/-- A walk along a way that is blocked fails in the way that it is blocked. -/
theorem walk_of_blocked (htree : fs.IsTree) {fault : FileFault}
    (hstays : fs.climbs folder names = false) (h : fs.blocked? folder names = some fault) :
    fault = .notAFolder ∧ fs.walk folder names = .error .notAFolder ∨
      fault = .exists ∧ ∃ place content, fs.walk folder names = .ok place ∧
        fs.entry? place = some (.file content) := by
  induction names generalizing folder with
  | nil => cases h
  | cons name rest ih =>
      have ih {folder : List String} := @ih folder fun name hname =>
        hnames name (List.mem_cons_of_mem _ hname)
      have hleads := hnames name (List.mem_cons_self ..)
      by_cases hup : name = ".."
      · subst hup
        rw [climbs_up] at hstays
        rw [blocked?_up] at h
        rw [walk_up]
        exact ih hstays h
      · by_cases henter : fs.entry? (folder ++ [name]) = some .folder
        · rw [climbs_enter hleads hup henter] at hstays
          rw [blocked?_name hup, holdsFile_eq_false (.inr henter)] at h
          rw [walk_enter hleads hup henter]
          exact ih hstays h
        · rw [blocked?_name hup] at h
          split at h
          · rename_i hfile
            obtain ⟨content, hfile⟩ := entry?_of_holdsFile hfile
            cases h
            rw [walk_name hleads hup, hfile]
            cases rest with
            | nil => exact .inr ⟨rfl, _, content, rfl, hfile⟩
            | cons _ _ => exact .inl ⟨rfl, rfl⟩
          · -- Behind a place that is free nothing stands, and the way does not lead back.
            rename_i hfile
            have hfree := (entry?_of_not_holdsFile (Bool.eq_false_iff.mpr hfile)).resolve_right henter
            rw [climbs_stop hleads hup henter, hfree, Option.isNone_none, Bool.true_and,
              List.contains_eq_mem, decide_eq_false_iff_not] at hstays
            have hnone : fs.blocked? (folder ++ [name]) rest = none :=
              (blocked?_eq_none_iff fun name hname => hnames name (List.mem_cons_of_mem _ hname)).mpr
                fun place hplace => holdsFile_eq_false (.inl (free_beyond htree hfree hstays hplace))
            rw [hnone] at h
            cases h

end

end CrowdPad.Files
