import CrowdPad.Scheduler.Lane

/-! What a lane has planned. Whatever the moment of a walk, what it hands over and what is then still
planned make up what was planned before, so that a lane can be followed by its plan alone: time only
moves the front of the plan into the past, and only a cancellation changes it. -/

namespace CrowdPad

/-- The edges that a lane hands over in the course of time if its batch stays as it is. -/
def plannedEdges (cancelled : Bool) (skipped : List Nat) : List Edge → List Edge
  | [] => []
  | e :: rest =>
    match e.transition with
    | .press =>
      if cancelled then plannedEdges cancelled (e.pair :: skipped) rest
      else e :: plannedEdges cancelled skipped rest
    | .release =>
      if skipped.contains e.pair then plannedEdges cancelled (skipped.erase e.pair) rest
      else e :: plannedEdges cancelled skipped rest

/-- What a lane has planned. -/
def Lane.planned (cancelled : Bool) (lane : Lane) : List Edge :=
  plannedEdges cancelled lane.skipped lane.edges

section Plan

variable {cancelled : Bool} {skipped : List Nat} {e : Edge} (rest : List Edge)

theorem plannedEdges_press_cancelled (hpress : e.transition = .press) (hcancelled : cancelled) :
    plannedEdges cancelled skipped (e :: rest) =
      plannedEdges cancelled (e.pair :: skipped) rest := by
  rw [plannedEdges, hpress]
  simp only [hcancelled, if_true]

theorem plannedEdges_press (hpress : e.transition = .press) (hcancelled : ¬cancelled) :
    plannedEdges cancelled skipped (e :: rest) = e :: plannedEdges cancelled skipped rest := by
  rw [plannedEdges, hpress]
  simp only [hcancelled, Bool.false_eq_true, if_false]

theorem plannedEdges_release_skipped (hrelease : e.transition = .release)
    (hskipped : skipped.contains e.pair) :
    plannedEdges cancelled skipped (e :: rest) =
      plannedEdges cancelled (skipped.erase e.pair) rest := by
  rw [plannedEdges, hrelease]
  simp only [hskipped, if_true]

theorem plannedEdges_release (hrelease : e.transition = .release)
    (hskipped : ¬skipped.contains e.pair) :
    plannedEdges cancelled skipped (e :: rest) = e :: plannedEdges cancelled skipped rest := by
  rw [plannedEdges, hrelease]
  simp only [hskipped, Bool.false_eq_true, if_false]

end Plan

/-! ### One walk -/

section Walk

variable (now : Time) (cancelled : Bool) (skipped : List Nat) (edges : List Edge)

/-- A walk hands over the front of the plan and leaves the rest of it. -/
theorem walkLane_handed_append :
    (walkLane now cancelled skipped edges).handed ++
      plannedEdges cancelled (walkLane now cancelled skipped edges).skipped
        (walkLane now cancelled skipped edges).rest = plannedEdges cancelled skipped edges := by
  fun_induction walkLane now cancelled skipped edges with
  | case1 | case4 | case7 => rfl
  | case2 skipped e rest hpress hcancelled walk ih =>
      rw [plannedEdges_press_cancelled rest hpress hcancelled]
      exact ih
  | case3 skipped e rest hpress hcancelled hdue walk ih =>
      rw [plannedEdges_press rest hpress hcancelled, ← ih]
      rfl
  | case5 skipped e rest hrelease hskipped ih =>
      rw [plannedEdges_release_skipped rest hrelease hskipped]
      exact ih
  | case6 skipped e rest hrelease hskipped hdue walk ih =>
      rw [plannedEdges_release rest hrelease hskipped, ← ih]
      rfl

theorem walkLane_due {e : Edge} (he : e ∈ (walkLane now cancelled skipped edges).handed) :
    e.fireAt ≤ now := by
  fun_induction walkLane now cancelled skipped edges with
  | case1 | case4 | case7 => exact absurd he List.not_mem_nil
  | case2 skipped first rest hpress hcancelled walk ih => exact ih he
  | case5 skipped first rest hrelease hskipped ih => exact ih he
  | case3 skipped first rest hpress hcancelled hdue walk ih =>
      rcases List.mem_cons.mp he with rfl | hwalk
      · exact hdue
      · exact ih hwalk
  | case6 skipped first rest hrelease hskipped hdue walk ih =>
      rcases List.mem_cons.mp he with rfl | hwalk
      · exact hdue
      · exact ih hwalk

/-- A walk takes edges off the front of a lane and hands over some of them. -/
theorem walkLane_split : ∃ gone, gone ++ (walkLane now cancelled skipped edges).rest = edges ∧
    (walkLane now cancelled skipped edges).handed.Sublist gone := by
  fun_induction walkLane now cancelled skipped edges with
  | case1 | case4 | case7 => exact ⟨[], rfl, List.Sublist.refl []⟩
  | case2 skipped e rest hpress hcancelled walk ih =>
      obtain ⟨gone, hedges, hhanded⟩ := ih
      exact ⟨e :: gone, congrArg (e :: ·) hedges, hhanded.cons e⟩
  | case3 skipped e rest hpress hcancelled hdue walk ih =>
      obtain ⟨gone, hedges, hhanded⟩ := ih
      exact ⟨e :: gone, congrArg (e :: ·) hedges, hhanded.cons_cons e⟩
  | case5 skipped e rest hrelease hskipped ih =>
      obtain ⟨gone, hedges, hhanded⟩ := ih
      exact ⟨e :: gone, congrArg (e :: ·) hedges, hhanded.cons e⟩
  | case6 skipped e rest hrelease hskipped hdue walk ih =>
      obtain ⟨gone, hedges, hhanded⟩ := ih
      exact ⟨e :: gone, congrArg (e :: ·) hedges, hhanded.cons_cons e⟩

theorem walkLane_suffix : (walkLane now cancelled skipped edges).rest <:+ edges := by
  obtain ⟨gone, hedges, -⟩ := walkLane_split now cancelled skipped edges
  exact ⟨gone, hedges⟩

theorem walkLane_handed_sublist :
    (walkLane now cancelled skipped edges).handed.Sublist edges := by
  obtain ⟨gone, hedges, hhanded⟩ := walkLane_split now cancelled skipped edges
  exact hhanded.trans (hedges ▸ List.sublist_append_left gone _)

theorem walkLane_head_late {e : Edge}
    (he : (walkLane now cancelled skipped edges).rest.head? = some e) : now < e.fireAt := by
  fun_induction walkLane now cancelled skipped edges with
  | case1 => exact absurd he (by simp)
  | case2 skipped first rest hpress hcancelled walk ih => exact ih he
  | case3 skipped first rest hpress hcancelled hdue walk ih => exact ih he
  | case5 skipped first rest hrelease hskipped ih => exact ih he
  | case6 skipped first rest hrelease hskipped hdue walk ih => exact ih he
  | case4 skipped first rest hpress hcancelled hdue =>
      rw [List.head?_cons, Option.some.injEq] at he
      exact he ▸ Int.not_le.mp hdue
  | case7 skipped first rest hrelease hskipped hdue =>
      rw [List.head?_cons, Option.some.injEq] at he
      exact he ▸ Int.not_le.mp hdue

/-- A lane that was walked stays as it is until the edge in front of it is due. -/
theorem walkLane_stays (later : Time)
    (hlate : ∀ e, (walkLane now cancelled skipped edges).rest.head? = some e → later < e.fireAt) :
    walkLane later cancelled (walkLane now cancelled skipped edges).skipped
        (walkLane now cancelled skipped edges).rest =
      { rest := (walkLane now cancelled skipped edges).rest
        skipped := (walkLane now cancelled skipped edges).skipped } := by
  fun_induction walkLane now cancelled skipped edges with
  | case1 => rfl
  | case2 skipped first rest hpress hcancelled walk ih => exact ih hlate
  | case3 skipped first rest hpress hcancelled hdue walk ih => exact ih hlate
  | case5 skipped first rest hrelease hskipped ih => exact ih hlate
  | case6 skipped first rest hrelease hskipped hdue walk ih => exact ih hlate
  | case4 skipped first rest hpress hcancelled hdue =>
      have hnot : ¬first.fireAt ≤ later := Int.not_le.mpr (hlate first rfl)
      simp only [walkLane, hpress, hcancelled, hnot, Bool.false_eq_true, if_false]
  | case7 skipped first rest hrelease hskipped hdue =>
      have hnot : ¬first.fireAt ≤ later := Int.not_le.mpr (hlate first rfl)
      simp only [walkLane, hrelease, hskipped, hnot, Bool.false_eq_true, if_false]

/-- A walk that takes no edge off a lane does nothing at all. -/
theorem walkLane_eq_of_length
    (hlength : (walkLane now cancelled skipped edges).rest.length = edges.length) :
    walkLane now cancelled skipped edges = { rest := edges, skipped } := by
  fun_induction walkLane now cancelled skipped edges with
  | case1 | case4 | case7 => rfl
  | case2 skipped e rest hpress hcancelled walk ih =>
      have hshort := (walkLane_suffix now cancelled (e.pair :: skipped) rest).length_le
      exact absurd hlength (Nat.ne_of_lt (Nat.lt_succ_of_le hshort))
  | case3 skipped e rest hpress hcancelled hdue walk ih =>
      have hshort := (walkLane_suffix now cancelled skipped rest).length_le
      exact absurd hlength (Nat.ne_of_lt (Nat.lt_succ_of_le hshort))
  | case5 skipped e rest hrelease hskipped ih =>
      have hshort := (walkLane_suffix now cancelled (skipped.erase e.pair) rest).length_le
      exact absurd hlength (Nat.ne_of_lt (Nat.lt_succ_of_le hshort))
  | case6 skipped e rest hrelease hskipped hdue walk ih =>
      have hshort := (walkLane_suffix now cancelled skipped rest).length_le
      exact absurd hlength (Nat.ne_of_lt (Nat.lt_succ_of_le hshort))

/-- A cancelled lane hands over no press. -/
theorem walkLane_cancelled {e : Edge} (he : e ∈ (walkLane now true skipped edges).handed) :
    e.transition = .release := by
  generalize hcancelled : true = cancelled at he
  fun_induction walkLane now cancelled skipped edges with
  | case1 | case4 | case7 => exact absurd he List.not_mem_nil
  | case2 skipped first rest hpress _ walk ih => exact ih he
  | case5 skipped first rest hrelease hskipped ih => exact ih he
  | case3 skipped first rest hpress hnot => exact absurd hcancelled.symm hnot
  | case6 skipped first rest hrelease hskipped hdue walk ih =>
      rcases List.mem_cons.mp he with rfl | hwalk
      · exact hrelease
      · exact ih hwalk

end Walk

/-! ### The plan -/

theorem plannedEdges_sublist (cancelled : Bool) (skipped : List Nat) (edges : List Edge) :
    (plannedEdges cancelled skipped edges).Sublist edges := by
  fun_induction plannedEdges cancelled skipped edges with
  | case1 => exact List.nil_sublist _
  | case2 skipped e rest hpress hcancelled ih => exact ih.cons e
  | case3 skipped e rest hpress hcancelled ih => exact ih.cons_cons e
  | case4 skipped e rest hrelease hskipped ih => exact ih.cons e
  | case5 skipped e rest hrelease hskipped ih => exact ih.cons_cons e

/-- As long as nothing is given up, all edges of a lane are planned. -/
theorem plannedEdges_uncancelled (edges : List Edge) : plannedEdges false [] edges = edges := by
  induction edges with
  | nil => rfl
  | cons e rest ih =>
      cases htransition : e.transition with
      | press => rw [plannedEdges_press rest htransition Bool.false_ne_true, ih]
      | release => rw [plannedEdges_release rest htransition (by simp), ih]

/-- The plan for one pair depends on the edges of this pair alone. -/
theorem plannedEdges_filter_pair (pair : Nat) (cancelled : Bool) (skipped : List Nat)
    (edges : List Edge) :
    (plannedEdges cancelled skipped edges).filter (·.pair == pair) =
      plannedEdges cancelled (skipped.filter (· == pair)) (edges.filter (·.pair == pair)) := by
  have hcontains {skipped : List Nat} :
      (skipped.filter (· == pair)).contains pair = skipped.contains pair := by
    simp only [List.contains_eq_mem, List.mem_filter, BEq.rfl, and_true]
  fun_induction plannedEdges cancelled skipped edges with
  | case1 => rfl
  | case2 skipped e rest hpress hcancelled ih =>
      by_cases hpair : e.pair = pair
      · rw [ih, List.filter_cons_of_pos (by simp [hpair]), List.filter_cons_of_pos (by simp [hpair]),
          plannedEdges_press_cancelled _ hpress hcancelled]
      · rw [ih, List.filter_cons_of_neg (by simp [hpair]), List.filter_cons_of_neg (by simp [hpair])]
  | case3 skipped e rest hpress hcancelled ih =>
      by_cases hpair : e.pair = pair
      · rw [List.filter_cons_of_pos (by simp [hpair]), List.filter_cons_of_pos (by simp [hpair]),
          plannedEdges_press _ hpress hcancelled, ih]
      · rw [List.filter_cons_of_neg (by simp [hpair]), List.filter_cons_of_neg (by simp [hpair]), ih]
  | case4 skipped e rest hrelease hskipped ih =>
      by_cases hpair : e.pair = pair
      · rw [ih, List.filter_cons_of_pos (by simp [hpair]), plannedEdges_release_skipped _ hrelease
          (by rw [hpair, hcontains, ← hpair, hskipped]), List.erase_filter]
      · have hothers : (skipped.erase e.pair).filter (· == pair) = skipped.filter (· == pair) := by
          rw [← List.erase_filter, List.erase_of_not_mem (by simp [hpair])]
        rw [ih, hothers, List.filter_cons_of_neg (by simp [hpair])]
  | case5 skipped e rest hrelease hskipped ih =>
      by_cases hpair : e.pair = pair
      · rw [List.filter_cons_of_pos (by simp [hpair]), List.filter_cons_of_pos (by simp [hpair]),
          plannedEdges_release _ hrelease (by rwa [hpair, hcontains, ← hpair]), ih]
      · rw [List.filter_cons_of_neg (by simp [hpair]), List.filter_cons_of_neg (by simp [hpair]), ih]

end CrowdPad
