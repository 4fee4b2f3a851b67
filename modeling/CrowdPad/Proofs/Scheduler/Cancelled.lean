import CrowdPad.Proofs.Scheduler.Plan

/-! Cancelled batches. Of the lanes of a batch that is cancelled only releases leave, and only releases are
planned in them; a lane that was walked and still has edges waits for one of them. -/

namespace CrowdPad

variable {cancelled : Bool} {skipped : List Nat} {edges : List Edge} {e : Edge} {now : Time}

/-- A cancelled lane plans no press. -/
theorem plannedEdges_cancelled (he : e ∈ plannedEdges true skipped edges) : e.transition = .release := by
  generalize hcancelled : true = cancelled at he
  fun_induction plannedEdges cancelled skipped edges with
  | case1 => exact absurd he List.not_mem_nil
  | case2 skipped first rest hpress _ ih => exact ih he
  | case3 skipped first rest hpress hnot => exact absurd hcancelled.symm hnot
  | case4 skipped first rest hrelease hskipped ih => exact ih he
  | case5 skipped first rest hrelease hskipped ih =>
      rcases List.mem_cons.mp he with rfl | hrest
      · exact hrelease
      · exact ih hrest

/-- A walk stops in front of what is planned. -/
theorem walkLane_head_planned (now : Time) (cancelled : Bool) (skipped : List Nat) (edges : List Edge) :
    let walk := walkLane now cancelled skipped edges
    (plannedEdges cancelled walk.skipped walk.rest).head? = walk.rest.head? := by
  fun_induction walkLane now cancelled skipped edges with
  | case1 => rfl
  | case2 skipped first rest hpress hcancelled walk ih => exact ih
  | case3 skipped first rest hpress hcancelled hdue walk ih => exact ih
  | case5 skipped first rest hrelease hskipped ih => exact ih
  | case6 skipped first rest hrelease hskipped hdue walk ih => exact ih
  | case4 skipped first rest hpress hcancelled hdue =>
      simp only [plannedEdges_press rest hpress hcancelled, List.head?_cons]
  | case7 skipped first rest hrelease hskipped hdue =>
      simp only [plannedEdges_release rest hrelease hskipped, List.head?_cons]

namespace Scheduler

variable {s : Scheduler} {lane : Lane}

theorem Orderly.isCancelled_lane (h : s.Orderly) (hlane : lane ∈ s.lanes)
    (hcancelled : ∀ b ∈ s.batches, b.id = lane.batch → b.cancelled) : s.isCancelled lane.batch := by
  obtain ⟨b, hb, hid⟩ := isActive_iff.mp (h.registered lane hlane)
  rw [isCancelled, List.any_eq_true]
  exact ⟨b, hb, by rw [hid, BEq.rfl, hcancelled b hb hid]; rfl⟩

/-- Only releases of a cancelled batch are handed over. -/
theorem Orderly.release_of_mem_tick (h : s.Orderly) {accepting : Bool}
    (hcancelled : ∀ b ∈ s.batches, b.id = e.batch → b.cancelled) (he : e ∈ (s.tick now accepting).2) :
    e.transition = .release := by
  rw [tick_edges] at he
  obtain ⟨lane, hlane, hwalk⟩ := List.mem_flatMap.mp he
  have hmem : e ∈ lane.edges := (walkLane_handed_sublist _ _ _ _).subset hwalk
  have hbatch := (h.owned lane hlane e hmem).1
  rw [walkOf, Lane.walk, h.isCancelled_lane hlane (hbatch ▸ hcancelled)] at hwalk
  exact walkLane_cancelled _ _ _ hwalk

/-- Only releases of a cancelled batch are planned. -/
theorem Orderly.release_of_mem_planned (h : s.Orderly) (hlane : lane ∈ s.lanes)
    (hcancelled : ∀ b ∈ s.batches, b.id = lane.batch → b.cancelled) (he : e ∈ s.plannedOf lane) :
    e.transition = .release := by
  rw [plannedOf, h.isCancelled_lane hlane hcancelled] at he
  exact plannedEdges_cancelled he

/-- Something is planned in every lane that a tick leaves. -/
theorem Orderly.plannedOf_tick_ne_nil (h : s.Orderly) {accepting : Bool}
    (hlane : lane ∈ (s.tick now accepting).1.lanes) : (s.tick now accepting).1.plannedOf lane ≠ [] := by
  have hedges := (h.tick now accepting).ne_nil lane hlane
  obtain ⟨before, -, rfl⟩ := mem_tick_lanes s now accepting hlane
  rw [plannedOf_tick]
  intro hnone
  have hhead := walkLane_head_planned now (s.isCancelled before.batch) before.skipped before.edges
  exact hedges (List.head?_eq_none_iff.mp (hhead.symm.trans (congrArg List.head? hnone)))

/-- Lanes in which nothing is planned are walked to their end. -/
theorem Orderly.tick_lanes_eq_nil (h : s.Orderly) (hnone : ∀ lane ∈ s.lanes, s.plannedOf lane = [])
    (now : Time) (accepting : Bool) : (s.tick now accepting).1.lanes = [] := by
  rw [List.eq_nil_iff_forall_not_mem]
  intro lane hlane
  refine h.plannedOf_tick_ne_nil hlane ?_
  obtain ⟨before, hbefore, rfl⟩ := mem_tick_lanes s now accepting hlane
  have hplanned := walkOf_handed_append s now before
  rw [hnone before hbefore] at hplanned
  rw [plannedOf_tick]
  exact (List.append_eq_nil_iff.mp hplanned).2

end Scheduler

end CrowdPad
