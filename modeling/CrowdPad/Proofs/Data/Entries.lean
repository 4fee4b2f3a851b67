import CrowdPad.Data.Decode
import Mathlib.Data.List.Basic

/-! Lists of entries under keys. What is found under a key is an entry of the list, and taking out
or replacing one entry leaves the others. -/

namespace CrowdPad

section Lookup

variable {κ α : Type} [BEq κ] [LawfulBEq κ] {key : κ} {item : α} {entries : List (κ × α)}

theorem mem_of_lookup (h : entries.lookup key = some item) : (key, item) ∈ entries := by
  obtain ⟨before, behind, rfl, -⟩ := List.lookup_eq_some_iff.mp h
  simp

theorem lookup_eq_none_iff_not_mem_keys :
    entries.lookup key = none ↔ key ∉ entries.map (·.1) := by
  rw [List.lookup_eq_none_iff]
  constructor
  · intro h hmem
    obtain ⟨entry, hentry, rfl⟩ := List.mem_map.mp hmem
    simpa using h entry hentry
  · intro h entry hentry
    rw [bne_iff_ne]
    rintro rfl
    exact h (List.mem_map_of_mem hentry)

/-- Taking out what is under one key leaves the rest. -/
theorem lookup_filter_ne (key other : κ) (entries : List (κ × α)) :
    (entries.filter fun entry => entry.1 != other).lookup key =
      if key == other then none else entries.lookup key := by
  induction entries with
  | nil => simp
  | cons entry rest ih =>
      by_cases hother : entry.1 = other
      · rw [List.filter_cons_of_neg (by simp [hother]), ih]
        split
        · rfl
        · rename_i hne
          rw [← hother] at hne
          rw [List.lookup_cons, Bool.eq_false_iff.mpr hne]
      · rw [List.filter_cons_of_pos (by simp [hother]), List.lookup_cons, List.lookup_cons, ih]
        split
        · rename_i hsame
          rw [beq_iff_eq.mp hsame, if_neg (by simpa using hother)]
        · rfl

/-- What is found is found among some of the entries, if it is one of them. -/
theorem lookup_filter_of_lookup {keeps : κ × α → Bool} (h : entries.lookup key = some item)
    (hkeeps : keeps (key, item)) : (entries.filter keeps).lookup key = some item := by
  induction entries with
  | nil => cases h
  | cons entry rest ih =>
      rw [List.lookup_cons] at h
      split at h
      · rename_i hsame
        obtain rfl : entry = (key, item) := Prod.ext (beq_iff_eq.mp hsame).symm (Option.some.inj h)
        rw [List.filter_cons_of_pos hkeeps, List.lookup_cons, hsame]
      · rename_i hother
        rw [List.filter_cons]
        split
        · rw [List.lookup_cons, hother]
          exact ih h
        · exact ih h

end Lookup

namespace Value

variable {α : Type} {name : String} {item : α} {entries : List (String × α)}

/-- A name that is new comes in at the end. -/
theorem putEntry_of_not_mem (h : name ∉ entries.map (·.1)) :
    putEntry name item entries = entries ++ [(name, item)] := by
  induction entries with
  | nil => rfl
  | cons entry rest ih =>
      rw [List.map_cons, List.mem_cons, not_or] at h
      rw [putEntry, if_neg (Ne.symm h.1), ih h.2, List.cons_append]

theorem keys_putEntry_of_mem (h : name ∈ entries.map (·.1)) :
    (putEntry name item entries).map (·.1) = entries.map (·.1) := by
  induction entries with
  | nil => exact absurd h List.not_mem_nil
  | cons entry rest ih =>
      rw [putEntry]
      split
      · rfl
      · rename_i hother
        have hrest := (List.mem_cons.mp h).resolve_left (Ne.symm hother)
        simp only [List.map_cons, ih hrest]

theorem eq_or_mem_of_mem_putEntry {entry : String × α} (h : entry ∈ putEntry name item entries) :
    entry = (name, item) ∨ entry ∈ entries := by
  induction entries with
  | nil => exact .inl (List.mem_singleton.mp h)
  | cons first rest ih =>
      rw [putEntry] at h
      split at h
      · rename_i hsame
        rcases List.mem_cons.mp h with rfl | hrest
        · exact .inl (Prod.ext hsame rfl)
        · exact .inr (List.mem_cons_of_mem _ hrest)
      · rcases List.mem_cons.mp h with rfl | hrest
        · exact .inr (List.mem_cons_self ..)
        · exact (ih hrest).imp_right (List.mem_cons_of_mem _)

theorem lookup_putEntry (other : String) : (putEntry name item entries).lookup other =
    if other == name then some item else entries.lookup other := by
  induction entries with
  | nil =>
      rw [putEntry, List.lookup_cons]
      split <;> simp_all
  | cons entry rest ih =>
      rw [putEntry]
      split
      · rename_i hsame
        rw [List.lookup_cons, List.lookup_cons, hsame]
        split <;> simp_all
      · rename_i hother
        rw [List.lookup_cons, List.lookup_cons, ih]
        split
        · rename_i hfound
          have hne : ¬(other == name) = true := by
            rw [beq_iff_eq.mp hfound]
            simpa using hother
          rw [if_neg hne]
        · rfl

end Value

end CrowdPad
