import CrowdPad.Files.Tree
import CrowdPad.Proofs.Data.Entries

/-! Trees of files. What is there is in a folder that is there, and stays so when anything is put where
no folder is, or taken away there. -/

namespace CrowdPad.Files

/-! ### Changes at one place -/

/-- Whether files differ at one place at most. -/
structure Differs (place : List String) (fs fs' : Files) : Prop where
  home : fs'.home = fs.home
  elsewhere : ∀ other, other ≠ place → fs'.entry? other = fs.entry? other

variable {fs fs' : Files} {place folder : List String}

theorem entry?_eq_lookup (hne : place ≠ []) : fs.entry? place = fs.entries.lookup place := by
  unfold entry?
  exact if_neg (by simpa using hne)

theorem ne_nil_of_entry?_ne (h : fs.entry? place ≠ some .folder) : place ≠ [] := by
  rintro rfl
  exact h rfl

theorem ne_folder_of_none (h : fs.entry? place = none) : fs.entry? place ≠ some .folder := by
  rw [h]
  exact nofun

theorem ne_folder_of_file {content : String} (h : fs.entry? place = some (.file content)) :
    fs.entry? place ≠ some .folder := by
  rw [h]
  exact nofun

theorem entry?_put (fs : Files) (hne : place ≠ []) (entry : FileEntry) :
    Files.entry? (fs.put place entry) place = some entry := by
  rw [entry?_eq_lookup hne, put, List.lookup_append, lookup_filter_ne]
  simp

theorem differs_put (place : List String) (entry : FileEntry) (fs : Files) :
    Differs place fs (fs.put place entry) := by
  refine ⟨rfl, fun other hother => ?_⟩
  by_cases hroot : other = []
  · rw [hroot]
    rfl
  · have hbeq : (other == place) = false := beq_false_of_ne hother
    rw [entry?_eq_lookup hroot, entry?_eq_lookup hroot, put, List.lookup_append, lookup_filter_ne,
      List.lookup_cons, hbeq]
    exact Option.or_none

theorem entry?_drop (fs : Files) (hne : place ≠ []) :
    Files.entry? (fs.drop place) place = none := by
  rw [entry?_eq_lookup hne, drop, lookup_filter_ne]
  simp

theorem differs_drop (place : List String) (fs : Files) : Differs place fs (fs.drop place) := by
  refine ⟨rfl, fun other hother => ?_⟩
  by_cases hroot : other = []
  · rw [hroot]
    rfl
  · rw [entry?_eq_lookup hroot, entry?_eq_lookup hroot, drop, lookup_filter_ne]
    simp [hother]

/-- Folders stay where no folder is changed. -/
theorem Differs.folder_stays (h : Differs place fs fs') (hplace : fs.entry? place ≠ some .folder)
    {other : List String} (hother : fs.entry? other = some .folder) :
    fs'.entry? other = some .folder := by
  have hne : other ≠ place := by
    rintro rfl
    exact hplace hother
  exact (h.elsewhere other hne).trans hother

/-! ### Trees -/

/-- Whether whatever is there is in a folder that is there. -/
structure IsTree (fs : Files) : Prop where
  home : fs.entry? fs.home = some .folder
  around : ∀ place name, ( fs.entry? (place ++ [name])).isSome → fs.entry? place = some .folder

theorem isTree_of_entries (hhome : fs.entry? fs.home = some .folder)
    (h : ∀ entry ∈ fs.entries, fs.entry? entry.1.dropLast = some .folder) : fs.IsTree := by
  refine ⟨hhome, fun place name hsome => ?_⟩
  rw [entry?_eq_lookup (List.concat_ne_nil name place)] at hsome
  obtain ⟨entry, hentry⟩ := Option.isSome_iff_exists.mp hsome
  simpa using h _ (mem_of_lookup hentry)

theorem IsTree.dropLast (h : fs.IsTree) (hfolder : fs.entry? folder = some .folder) :
    fs.entry? folder.dropLast = some .folder := by
  rcases List.eq_nil_or_concat folder with rfl | ⟨around, name, rfl⟩
  · rfl
  · rw [List.concat_eq_append] at hfolder ⊢
    rw [List.dropLast_concat]
    exact h.around around name (hfolder ▸ rfl)

/-- A tree stays one when anything is put where no folder is, or taken away there. -/
theorem IsTree.of_differs (h : fs.IsTree) (hdiffers : Differs place fs fs')
    (hplace : fs.entry? place ≠ some .folder)
    (haround : ( fs'.entry? place).isSome → fs.entry? place.dropLast = some .folder) : fs'.IsTree := by
  constructor
  · rw [hdiffers.home]
    exact hdiffers.folder_stays hplace h.home
  · intro other name hsome
    apply hdiffers.folder_stays hplace
    by_cases hsame : other ++ [name] = place
    · rw [hsame] at hsome
      have hfolder := haround hsome
      rwa [← hsame, List.dropLast_concat] at hfolder
    · rw [hdiffers.elsewhere _ hsame] at hsome
      exact h.around other name hsome

end CrowdPad.Files
