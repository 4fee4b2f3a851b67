import CrowdPad.Proofs.Data.Result
import CrowdPad.Verb.Table
import Mathlib.Data.List.Basic

/-! Verbs in their table. What a word names is a verb of the table, and since no two verbs of a table
have one name, each is found under its own. -/

namespace CrowdPad

namespace VerbTable

variable {t : VerbTable} {v : Verb}

theorem mem_of_get? {name : String} (h : t.get? name = some v) : v ∈ t.verbs :=
  List.mem_of_find?_eq_some h

theorem name_of_get? {name : String} (h : t.get? name = some v) : v.name = name :=
  beq_iff_eq.mp (List.find?_some (p := fun v : Verb => v.name == name) h)

theorem mem_of_resolve? {word : String} (h : t.resolve? word = some v) : v ∈ t.verbs := by
  cases hget : t.get? (Text.lower word) with
  | some found =>
      simp only [resolve?, hget] at h
      cases h
      exact mem_of_get? hget
  | none =>
      simp only [resolve?, hget] at h
      obtain ⟨name, -, hsynonym⟩ := Option.bind_eq_some_iff.mp h
      exact mem_of_get? hsynonym

/-- Whether no two verbs of a table have one name. -/
def Distinct (t : VerbTable) : Prop := (t.verbs.map (·.name)).Nodup

instance : Decidable t.Distinct := inferInstanceAs (Decidable (List.Nodup _))

/-- Each verb is found under its own name. -/
theorem Distinct.get?_name (h : t.Distinct) (hv : v ∈ t.verbs) : t.get? v.name = some v := by
  obtain ⟨before, behind, hsplit⟩ := List.append_of_mem hv
  rw [Distinct, hsplit, List.map_append, List.nodup_append] at h
  refine List.find?_eq_some_iff_append.mpr ⟨beq_self_eq_true v.name, before, behind, hsplit, ?_⟩
  intro other hother
  have hne := h.2.2 _ (List.mem_map_of_mem hother) _ (List.mem_cons_self ..)
  rw [Bool.not_eq_true', beq_eq_false_iff_ne]
  exact hne

end VerbTable

namespace Declarations

/-- What is accepted keeps the names of the verbs apart. -/
theorem nodup_of_checkVerbs {accepted declared verbs : List Verb}
    (h : checkVerbs accepted declared = .ok verbs) (haccepted : (accepted.map (·.name)).Nodup) :
    (verbs.map (·.name)).Nodup := by
  induction declared generalizing accepted with
  | nil =>
      cases h
      exact haccepted
  | cons v rest ih =>
      rw [checkVerbs] at h
      split at h
      · cases h
      · split at h
        · cases h
        · rename_i hnew
          refine ih h ?_
          rw [List.map_append, List.nodup_append]
          refine ⟨haccepted, List.pairwise_singleton _ _, ?_⟩
          rintro _ hother _ hname rfl
          obtain ⟨other, hmem, hsame⟩ := List.mem_map.mp hother
          rw [List.mem_singleton.mp hname] at hsame
          exact hnew (List.any_eq_true.mpr ⟨other, hmem, beq_iff_eq.mpr hsame⟩)

/-- A table that is built has no two verbs of one name. -/
theorem distinct_of_build {d : Declarations} {t : VerbTable} (h : d.build = .ok t) :
    t.Distinct := by
  obtain ⟨verbs, hverbs, h⟩ := exists_of_bind_eq_ok h
  obtain ⟨synonyms, -, h⟩ := exists_of_bind_eq_ok h
  obtain ⟨weights, -, h⟩ := exists_of_bind_eq_ok h
  cases h
  exact nodup_of_checkVerbs hverbs List.nodup_nil

end Declarations

end CrowdPad
