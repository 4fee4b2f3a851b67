import Mathlib.Data.List.Forall2

/-! Results that may fail. What succeeds is taken apart into its steps, each of which succeeded. -/

namespace CrowdPad

variable {α β ε : Type}

theorem exists_of_bind_eq_ok {x : Except ε α} {f : α → Except ε β} {b : β}
    (h : x >>= f = .ok b) : ∃ a, x = .ok a ∧ f a = .ok b := by
  cases x with
  | error error => cases h
  | ok a => exact ⟨a, rfl, h⟩

theorem bind_of_eq_ok {x : Except ε α} {a : α} (h : x = .ok a) (f : α → Except ε β) :
    x >>= f = f a := by
  rw [h]
  rfl

theorem bind_of_eq_error {x : Except ε α} {error : ε} (h : x = .error error) (f : α → Except ε β) :
    x >>= f = .error error := by
  rw [h]
  rfl

theorem exists_of_map_eq_ok {x : Except ε α} {f : α → β} {b : β}
    (h : x.map f = .ok b) : ∃ a, x = .ok a ∧ f a = b := by
  cases x with
  | error error => cases h
  | ok a => exact ⟨a, rfl, Except.ok.inj h⟩

/-- A list that was worked through gives a result for each member, in order. -/
theorem mapM_eq_ok_iff {f : α → Except ε β} {xs : List α} {ys : List β} :
    xs.mapM f = .ok ys ↔ List.Forall₂ (fun x y => f x = .ok y) xs ys := by
  induction xs generalizing ys with
  | nil =>
      rw [List.mapM_nil, List.forall₂_nil_left_iff]
      exact ⟨fun h => (Except.ok.inj h).symm, fun h => h ▸ rfl⟩
  | cons x rest ih =>
      rw [List.mapM_cons, List.forall₂_cons_left_iff]
      constructor
      · intro h
        obtain ⟨y, hy, h⟩ := exists_of_bind_eq_ok h
        obtain ⟨others, hothers, h⟩ := exists_of_bind_eq_ok h
        exact ⟨y, others, hy, ih.mp hothers, (Except.ok.inj h).symm⟩
      · rintro ⟨y, others, hy, hothers, rfl⟩
        rw [hy, ih.mpr hothers]
        rfl

/-- Each result of a list that was worked through comes from one of its members. -/
theorem mem_of_mapM_eq_ok {f : α → Except ε β} {xs : List α} {ys : List β}
    (h : xs.mapM f = .ok ys) {y : β} (hy : y ∈ ys) : ∃ x ∈ xs, f x = .ok y := by
  obtain ⟨i, hi, rfl⟩ := List.getElem_of_mem hy
  obtain ⟨hlength, hget⟩ := List.forall₂_iff_get.mp (mapM_eq_ok_iff.mp h)
  exact ⟨_, List.getElem_mem (hlength ▸ hi), hget i _ hi⟩

theorem exists_mapM_eq_ok {f : α → Except ε β} {xs : List α} (h : ∀ x ∈ xs, ∃ y, f x = .ok y) :
    ∃ ys, xs.mapM f = .ok ys ∧ ys.length = xs.length := by
  induction xs with
  | nil => exact ⟨[], rfl, rfl⟩
  | cons x rest ih =>
      obtain ⟨y, hy⟩ := h x (List.mem_cons_self ..)
      obtain ⟨ys, hys, hlength⟩ := ih fun other hother => h other (List.mem_cons_of_mem _ hother)
      refine ⟨y :: ys, mapM_eq_ok_iff.mpr (.cons hy (mapM_eq_ok_iff.mp hys)), ?_⟩
      rw [List.length_cons, List.length_cons, hlength]

/-- The first member that fails ends the work on a list. -/
theorem mapM_eq_error {f : α → Except ε β} {before behind : List α} {x : α} {error : ε}
    (hbefore : ∀ x ∈ before, ∃ y, f x = .ok y) (h : f x = .error error) :
    (before ++ x :: behind).mapM f = .error error := by
  induction before with
  | nil =>
      rw [List.nil_append, List.mapM_cons]
      exact bind_of_eq_error h _
  | cons first rest ih =>
      obtain ⟨⟨y, hy⟩, hrest⟩ := List.forall_mem_cons.mp hbefore
      rw [List.cons_append, List.mapM_cons, bind_of_eq_ok hy]
      exact bind_of_eq_error (ih hrest) _

theorem mapM_eq_ok_self {f : α → Except ε α} {xs : List α} (h : ∀ x ∈ xs, f x = .ok x) :
    xs.mapM f = .ok xs :=
  mapM_eq_ok_iff.mpr (List.forall₂_same.mpr h)

end CrowdPad
