import CrowdPad.Proofs.Scheduler.Plan

/-! The press and the release of one request. A cancellation takes both out of the plan as long as
the press is still in its lane; once it has left, the release stays planned or not, as it was. -/

namespace CrowdPad

/-- A press and the release that belongs to it. -/
structure Edge.Twins (press release : Edge) : Prop where
  pair : release.pair = press.pair
  batch : release.batch = press.batch
  down : press.transition = .press
  up : release.transition = .release

theorem Request.twins (r : Request) (batch pair : Nat) (reference : Time) :
    (r.pressEdge batch pair reference).Twins (r.releaseEdge batch pair reference) where
  pair := rfl
  batch := rfl
  down := rfl
  up := rfl

/-- Whether an edge is of a pair. -/
def Edge.inPair (pair : Nat) (e : Edge) : Bool := e.pair == pair

section Twins

variable {press release : Edge} (htwins : press.Twins release)

include htwins

/-- In a cancelled lane a press takes its release with it. -/
theorem plannedEdges_twins_cancelled (skipped : List Nat) :
    plannedEdges true skipped [press, release] = [] := by
  have hskipped : (press.pair :: skipped).contains release.pair := by
    rw [htwins.pair]
    simp
  rw [plannedEdges_press_cancelled _ htwins.down rfl,
    plannedEdges_release_skipped _ htwins.up hskipped, plannedEdges]

/-- Whether a lone release is planned does not depend on a cancellation. -/
theorem plannedEdges_release_alone (cancelled : Bool) (skipped : List Nat) :
    plannedEdges cancelled skipped [release] = plannedEdges false skipped [release] := by
  by_cases hskipped : skipped.contains release.pair
  · rw [plannedEdges_release_skipped _ htwins.up hskipped,
      plannedEdges_release_skipped _ htwins.up hskipped, plannedEdges, plannedEdges]
  · rw [plannedEdges_release _ htwins.up hskipped,
      plannedEdges_release _ htwins.up hskipped, plannedEdges, plannedEdges]

end Twins

namespace Scheduler

variable {s : Scheduler} {press release : Edge}

theorem kindred_inPair (pair : Nat) : Kindred (Edge.inPair pair) := by
  intro e other he hother
  exact Or.inl ((beq_iff_eq.mp he).trans (beq_iff_eq.mp hother).symm)

theorem plannedWhere_inPair {pair : Nat} {lane : Lane}
    (hbearers : s.bearers (Edge.inPair pair) = [lane]) :
    s.plannedWhere (Edge.inPair pair) = plannedEdges (s.isCancelled lane.batch)
      (lane.skipped.filter (· == pair)) (s.edgesWhere (Edge.inPair pair)) := by
  rw [plannedWhere, edgesWhere, hbearers, List.flatMap_singleton, List.flatMap_singleton]
  exact plannedEdges_filter_pair pair _ _ _

theorem Orderly.bearer_batch (h : s.Orderly) (htwins : press.Twins release) {lane : Lane}
    (hsuffix : s.edgesWhere (Edge.inPair press.pair) <:+ [press, release])
    (hlane : lane ∈ s.bearers (Edge.inPair press.pair)) : lane.batch = press.batch := by
  obtain ⟨hmem, e, he, hpair⟩ := mem_bearers.mp hlane
  have hwhere : e ∈ s.edgesWhere (Edge.inPair press.pair) :=
    List.mem_flatMap.mpr ⟨lane, hlane, List.mem_filter.mpr ⟨he, hpair⟩⟩
  have hbatch := (h.owned lane hmem e he).1
  rcases List.mem_pair.mp (hsuffix.subset hwhere) with rfl | rfl
  · exact hbatch.symm
  · exact hbatch.symm.trans htwins.batch

/-- A cancellation takes a pair out of the plan whose press is still in its lane. -/
theorem Orderly.plannedWhere_cancelIf_of_waiting (h : s.Orderly) (htwins : press.Twins release)
    {which : Nat → Bool} (hcovers : which press.batch)
    (hedges : s.edgesWhere (Edge.inPair press.pair) = [press, release]) :
    (s.cancelIf which).plannedWhere (Edge.inPair press.pair) = [] := by
  rcases h.bearers_cases (kindred_inPair press.pair) with hnone | ⟨lane, hlane, hone⟩
  · rw [edgesWhere, hnone] at hedges
    exact absurd hedges (List.cons_ne_nil _ _).symm
  · have hsuffix : s.edgesWhere (Edge.inPair press.pair) <:+ [press, release] :=
      ⟨[], hedges⟩
    have hbatch := h.bearer_batch htwins hsuffix (hone ▸ List.mem_singleton_self lane)
    have hactive := h.registered lane hlane
    have hbearers : (s.cancelIf which).bearers (Edge.inPair press.pair) = [lane] := hone
    rw [plannedWhere_inPair hbearers, isCancelled_cancelIf, hactive, hbatch, hcovers,
      edgesWhere_cancelIf, hedges, Bool.and_self, Bool.or_true, plannedEdges_twins_cancelled htwins]

/-- A cancellation leaves a pair as it is whose press has left its lane. -/
theorem Orderly.plannedWhere_cancelIf_of_begun (h : s.Orderly) (htwins : press.Twins release)
    (which : Nat → Bool) (hsuffix : s.edgesWhere (Edge.inPair press.pair) <:+ [press, release])
    (hbegun : s.edgesWhere (Edge.inPair press.pair) ≠ [press, release]) :
    (s.cancelIf which).plannedWhere (Edge.inPair press.pair) =
      s.plannedWhere (Edge.inPair press.pair) := by
  rcases h.bearers_cases (kindred_inPair press.pair) with hnone | ⟨lane, -, hone⟩
  · have hbearers : (s.cancelIf which).bearers (Edge.inPair press.pair) = [] := hnone
    rw [plannedWhere, hbearers, plannedWhere, hnone]
    rfl
  · have hbearers : (s.cancelIf which).bearers (Edge.inPair press.pair) = [lane] := hone
    rw [plannedWhere_inPair hbearers, plannedWhere_inPair hone, edgesWhere_cancelIf]
    rcases List.suffix_cons_iff.mp hsuffix with hwhole | hrest
    · exact absurd hwhole hbegun
    · rcases List.suffix_cons_iff.mp hrest with hlast | hnil
      · rw [hlast, plannedEdges_release_alone htwins, ← plannedEdges_release_alone htwins]
      · rw [List.suffix_nil.mp hnil, plannedEdges, plannedEdges]

/-! ### A new batch -/

/-- The edges of a new batch are borne by one of its lanes. -/
theorem Orderly.bearers_schedule (h : s.Orderly) (requests : List Request) (reference : Time)
    {q : Edge → Bool} (hq : Kindred q)
    (hnew : ∀ e, q e → e.batch = s.nextBatch ∨ s.nextPair ≤ e.pair) :
    (s.schedule requests reference).1.bearers q = [] ∨
      ∃ lane ∈ newLanes s.nextBatch reference s.nextPair requests,
        (s.schedule requests reference).1.bearers q = [lane] := by
  rcases (h.schedule requests reference).bearers_cases hq with hnone | ⟨lane, hlane, hone⟩
  · exact Or.inl hnone
  · refine Or.inr ⟨lane, ?_, hone⟩
    obtain ⟨-, e, he, hqe⟩ := mem_bearers.mp (hone ▸ List.mem_singleton_self lane)
    rw [schedule_lanes, List.mem_append] at hlane
    rcases hlane with hold | hlane
    · obtain ⟨hbatch, hpair⟩ := h.owned lane hold e he
      have hactive := h.lt_of_isActive (h.registered lane hold)
      rcases hnew e hqe with heq | hle
      · omega
      · omega
    · exact hlane

/-- The edges of a new batch on one key stand in the order in which they are to be handed over. -/
theorem Orderly.edgesWhere_schedule_key (h : s.Orderly) (requests : List Request)
    (reference : Time) (key : String) :
    ((s.schedule requests reference).1.edgesWhere
      (fun e => e.batch == s.nextBatch && e.key == key)).Pairwise Edge.Before := by
  have hnew : ∀ e : Edge, (e.batch == s.nextBatch && e.key == key) →
      e.batch = s.nextBatch ∨ s.nextPair ≤ e.pair :=
    fun e he => Or.inl (beq_iff_eq.mp (Bool.and_eq_true_iff.mp he).1)
  rw [edgesWhere]
  rcases h.bearers_schedule requests reference (kindred_key s.nextBatch key) hnew with
    hnone | ⟨lane, hlane, hone⟩
  · rw [hnone]
    exact List.Pairwise.nil
  · rw [hone, List.flatMap_singleton]
    exact (mem_newLanes hlane).2.2.2.1.filter _

theorem Orderly.mem_batchEdges_of_schedule (h : s.Orderly) {requests : List Request}
    {reference : Time} {lane : Lane} {e : Edge}
    (hlane : lane ∈ (s.schedule requests reference).1.lanes) (he : e ∈ lane.edges)
    (hbatch : e.batch = s.nextBatch) :
    e ∈ batchEdges s.nextBatch reference s.nextPair requests := by
  rw [schedule_lanes, List.mem_append] at hlane
  rcases hlane with hold | hnew
  · have howned := (h.owned lane hold e he).1
    have hactive := h.lt_of_isActive (h.registered lane hold)
    omega
  · exact (mem_newLanes hnew).2.2.2.2 e he

section Request

variable (h : s.Orderly) (requests : List Request) (reference : Time) {i : Nat}
  (hi : i < requests.length)

include h

theorem Orderly.bearers_schedule_inPair :
    (s.schedule requests reference).1.bearers (Edge.inPair (s.nextPair + i)) =
      [laneOf s.nextBatch (batchEdges s.nextBatch reference s.nextPair requests)
        requests[i].verb.key] := by
  have hpress : requests[i].pressEdge s.nextBatch (s.nextPair + i) reference ∈
      batchEdges s.nextBatch reference s.nextPair requests :=
    mem_batchEdges.mpr ⟨i, hi, List.mem_cons_self ..⟩
  have hbears : laneOf s.nextBatch (batchEdges s.nextBatch reference s.nextPair requests)
      requests[i].verb.key ∈
        (s.schedule requests reference).1.bearers (Edge.inPair (s.nextPair + i)) := by
    refine mem_bearers.mpr ⟨?_, _, mem_laneOf.mpr ⟨hpress, rfl⟩, beq_self_eq_true _⟩
    rw [schedule_lanes, List.mem_append]
    exact Or.inr (List.mem_map_of_mem (mem_keysOf.mpr ⟨_, hpress, rfl⟩))
  have hnew : ∀ e : Edge, e.inPair (s.nextPair + i) →
      e.batch = s.nextBatch ∨ s.nextPair ≤ e.pair :=
    fun e he => Or.inr ((beq_iff_eq.mp he).symm ▸ Nat.le_add_right _ _)
  rcases h.bearers_schedule requests reference (kindred_inPair _) hnew with
    hnone | ⟨lane, -, hone⟩
  · rw [hnone] at hbears
    exact absurd hbears List.not_mem_nil
  · rw [hone] at hbears ⊢
    rw [List.mem_singleton.mp hbears]

theorem Orderly.edgesWhere_schedule_inPair :
    (s.schedule requests reference).1.edgesWhere (Edge.inPair (s.nextPair + i)) =
      [requests[i].pressEdge s.nextBatch (s.nextPair + i) reference,
        requests[i].releaseEdge s.nextBatch (s.nextPair + i) reference] := by
  rw [edgesWhere, h.bearers_schedule_inPair requests reference hi, List.flatMap_singleton]
  exact laneOf_filter_pair hi

theorem Orderly.plannedWhere_schedule_inPair :
    (s.schedule requests reference).1.plannedWhere (Edge.inPair (s.nextPair + i)) =
      [requests[i].pressEdge s.nextBatch (s.nextPair + i) reference,
        requests[i].releaseEdge s.nextBatch (s.nextPair + i) reference] := by
  have hfresh : s.isCancelled s.nextBatch = false := by
    rw [isCancelled, List.any_eq_false]
    intro b hb
    have := h.numbered b hb
    simp only [Bool.and_eq_true, beq_iff_eq]
    omega
  rw [plannedWhere_inPair (h.bearers_schedule_inPair requests reference hi),
    h.edgesWhere_schedule_inPair requests reference hi, isCancelled_schedule]
  show plannedEdges (s.isCancelled s.nextBatch) [] _ = _
  rw [hfresh, plannedEdges_uncancelled]

end Request

end Scheduler

end CrowdPad
