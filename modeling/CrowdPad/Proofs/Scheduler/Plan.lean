import CrowdPad.Proofs.Scheduler.Orderly

/-! Following edges of one lane. For edges that are all kindred there is at most one lane that bears
them; what that lane has planned of them is all that is left to come. A tick hands over the front of
that plan, all that is due of it and nothing else. -/

namespace CrowdPad.Scheduler

/-- Whether the edges that a condition picks out are kindred, so that they share a lane. -/
def Kindred (q : Edge → Bool) : Prop := ∀ e other, q e → q other → e.Kin other

theorem kindred_key (batch : Nat) (key : String) :
    Kindred fun e => e.batch == batch && e.key == key := by
  intro e other he hother
  rw [Bool.and_eq_true, beq_iff_eq, beq_iff_eq] at he hother
  exact Or.inr ⟨he.1.trans hother.1.symm, he.2.trans hother.2.symm⟩

def bearers (s : Scheduler) (q : Edge → Bool) : List Lane :=
  s.lanes.filter fun lane => lane.edges.any q

/-- What the lanes hold of the edges that a condition picks out. -/
def edgesWhere (s : Scheduler) (q : Edge → Bool) : List Edge :=
  (s.bearers q).flatMap fun lane => lane.edges.filter q

/-- What is planned of the edges that a condition picks out. -/
def plannedWhere (s : Scheduler) (q : Edge → Bool) : List Edge :=
  (s.bearers q).flatMap fun lane => (s.plannedOf lane).filter q

variable {s : Scheduler} {q : Edge → Bool}

theorem mem_bearers {lane : Lane} :
    lane ∈ s.bearers q ↔ lane ∈ s.lanes ∧ ∃ e ∈ lane.edges, q e := by
  rw [bearers, List.mem_filter, List.any_eq_true]

/-- Kindred edges are borne by one lane, or by none. -/
theorem Orderly.bearers_cases (h : s.Orderly) (hq : Kindred q) :
    s.bearers q = [] ∨ ∃ lane ∈ s.lanes, s.bearers q = [lane] := by
  have hapart := h.apart.filter fun lane => lane.edges.any q
  have hmem : ∀ lane ∈ s.bearers q, lane ∈ s.lanes ∧ ∃ e ∈ lane.edges, q e :=
    fun lane hlane => mem_bearers.mp hlane
  rw [← bearers] at hapart
  match hbearers : s.bearers q with
  | [] => exact Or.inl rfl
  | [lane] => exact Or.inr ⟨lane, (hmem lane (hbearers ▸ List.mem_singleton_self lane)).1, rfl⟩
  | lane :: other :: rest =>
      obtain ⟨-, e, he, hqe⟩ := hmem lane (hbearers ▸ List.mem_cons_self ..)
      obtain ⟨-, e', he', hqe'⟩ := hmem other
        (hbearers ▸ List.mem_cons_of_mem _ (List.mem_cons_self ..))
      rw [hbearers] at hapart
      have hnot := List.rel_of_pairwise_cons hapart (List.mem_cons_self ..)
      exact absurd (hq e e' hqe hqe') (hnot e he e' he')

theorem plannedOf_sublist (s : Scheduler) (lane : Lane) : (s.plannedOf lane).Sublist lane.edges :=
  plannedEdges_sublist _ _ _

theorem filter_eq_nil_of_not_bearer {lane : Lane} (h : lane.edges.any q = false) {es : List Edge}
    (hes : es.Sublist lane.edges) : es.filter q = [] := by
  rw [List.filter_eq_nil_iff]
  intro e he hqe
  have := List.any_eq_true.mpr ⟨e, hes.subset he, hqe⟩
  rw [h] at this
  exact Bool.false_ne_true this

/-- Of the edges that lanes come to hand over, the lanes that bear none contribute none. -/
theorem flatMap_filter_bearers (lanes : List Lane) (f : Lane → List Edge)
    (hf : ∀ lane, (f lane).Sublist lane.edges) :
    (lanes.filter fun lane => lane.edges.any q).flatMap (fun lane => (f lane).filter q) =
      (lanes.flatMap f).filter q := by
  induction lanes with
  | nil => rfl
  | cons lane rest ih =>
      rw [List.flatMap_cons, List.filter_append, ← ih, List.filter_cons]
      cases hany : lane.edges.any q with
      | true => rw [if_pos rfl, List.flatMap_cons]
      | false =>
          rw [if_neg Bool.false_ne_true, filter_eq_nil_of_not_bearer hany (hf lane),
            List.nil_append]

theorem plannedWhere_eq (s : Scheduler) (q : Edge → Bool) :
    s.plannedWhere q = (s.lanes.flatMap s.plannedOf).filter q :=
  flatMap_filter_bearers s.lanes s.plannedOf s.plannedOf_sublist

theorem edgesWhere_eq (s : Scheduler) (q : Edge → Bool) :
    s.edgesWhere q = (s.lanes.flatMap Lane.edges).filter q :=
  flatMap_filter_bearers s.lanes Lane.edges fun lane => List.Sublist.refl lane.edges

theorem plannedWhere_sublist (s : Scheduler) (q : Edge → Bool) :
    (s.plannedWhere q).Sublist (s.edgesWhere q) := by
  unfold plannedWhere edgesWhere
  induction s.bearers q with
  | nil => exact List.Sublist.refl []
  | cons lane rest ih =>
      rw [List.flatMap_cons, List.flatMap_cons]
      exact ((s.plannedOf_sublist lane).filter q).append ih

/-! ### A tick -/

theorem tick_edges_filter (s : Scheduler) (now : Time) (accepting : Bool) (q : Edge → Bool) :
    (s.tick now accepting).2.filter q =
      (s.bearers q).flatMap fun lane => (s.walkOf now lane).handed.filter q := by
  rw [tick_edges]
  exact (flatMap_filter_bearers s.lanes (fun lane => (s.walkOf now lane).handed)
    fun lane => walkLane_handed_sublist _ _ _ _).symm

theorem Orderly.bearers_tick_perm (h : s.Orderly) (now : Time) (accepting : Bool)
    (q : Edge → Bool) : ((s.tick now accepting).1.bearers q).Perm
      (((s.bearers q).map (s.laneAfter now)).filter fun lane => lane.edges.any q) := by
  refine ((tick_lanes_perm s now accepting h.ne_nil).filter _).trans (List.Perm.of_eq ?_)
  rw [bearers, List.filter_filter, List.filter_map, List.filter_map, List.filter_filter]
  congr 1
  refine List.filter_congr fun lane _ => ?_
  simp only [Function.comp_apply]
  cases hany : (s.laneAfter now lane).edges.any q with
  | false => rfl
  | true =>
      obtain ⟨e, he, hqe⟩ := List.any_eq_true.mp hany
      have hbears : lane.edges.any q :=
        List.any_eq_true.mpr ⟨e, (laneAfter_suffix s now lane).subset he, hqe⟩
      rw [hbears, List.isEmpty_eq_false_iff.mpr (List.ne_nil_of_mem he)]
      rfl

/-- The lane that bears kindred edges behind a tick is the walked one, as long as it bears any. -/
theorem Orderly.bearers_tick (h : s.Orderly) (hq : Kindred q) (now : Time) (accepting : Bool) :
    (s.tick now accepting).1.bearers q =
      ((s.bearers q).map (s.laneAfter now)).filter fun lane => lane.edges.any q := by
  have hperm := h.bearers_tick_perm now accepting q
  rcases h.bearers_cases hq with hnone | ⟨lane, -, hone⟩
  · rw [hnone] at hperm ⊢
    exact hperm.eq_nil
  · rw [hone, List.map_singleton, List.filter_singleton] at hperm ⊢
    cases hany : (s.laneAfter now lane).edges.any q with
    | true =>
        rw [hany] at hperm
        exact hperm.eq_singleton
    | false =>
        rw [hany] at hperm
        exact hperm.eq_nil

/-- A tick hands over the front of a plan. -/
theorem Orderly.tick_append_plannedWhere (h : s.Orderly) (hq : Kindred q) (now : Time)
    (accepting : Bool) :
    (s.tick now accepting).2.filter q ++ (s.tick now accepting).1.plannedWhere q =
      s.plannedWhere q := by
  rw [tick_edges_filter, plannedWhere, h.bearers_tick hq, plannedWhere]
  rcases h.bearers_cases hq with hnone | ⟨lane, -, hone⟩
  · rw [hnone]
    rfl
  · rw [hone, List.map_singleton]
    simp only [plannedOf_tick]
    rw [flatMap_filter_bearers [s.laneAfter now lane] s.plannedOf s.plannedOf_sublist,
      List.flatMap_singleton, List.flatMap_singleton, List.flatMap_singleton,
      ← List.filter_append, walkOf_handed_append]

/-- A tick takes edges off the front of what lanes hold and hands over some of them. -/
theorem Orderly.tick_split_edgesWhere (h : s.Orderly) (hq : Kindred q) (now : Time)
    (accepting : Bool) :
    ∃ gone, gone ++ (s.tick now accepting).1.edgesWhere q = s.edgesWhere q ∧
      ((s.tick now accepting).2.filter q).Sublist gone := by
  rw [tick_edges_filter, edgesWhere, h.bearers_tick hq, edgesWhere]
  rcases h.bearers_cases hq with hnone | ⟨lane, -, hone⟩
  · rw [hnone]
    exact ⟨[], rfl, List.Sublist.refl []⟩
  · rw [hone, List.map_singleton, flatMap_filter_bearers [s.laneAfter now lane] Lane.edges
      fun lane => List.Sublist.refl lane.edges]
    simp only [List.flatMap_singleton]
    obtain ⟨gone, hedges, hhanded⟩ :=
      walkLane_split now (s.isCancelled lane.batch) lane.skipped lane.edges
    refine ⟨gone.filter q, ?_, hhanded.filter q⟩
    rw [← List.filter_append]
    exact congrArg (List.filter q) hedges

/-- What a tick leaves is not due. -/
theorem Orderly.lt_of_mem_tick (h : s.Orderly) (now : Time) (accepting : Bool) {lane : Lane}
    (hlane : lane ∈ (s.tick now accepting).1.lanes) {e : Edge} (he : e ∈ lane.edges) :
    now < e.fireAt := by
  obtain ⟨before, hbefore, rfl⟩ := mem_tick_lanes s now accepting hlane
  have hsorted := (h.sorted before hbefore).sublist (laneAfter_suffix s now before).sublist
  have hlate : ∀ first, (s.laneAfter now before).edges.head? = some first → now < first.fireAt :=
    fun first hfirst => walkLane_head_late _ _ _ _ hfirst
  match hedges : (s.laneAfter now before).edges with
  | [] => exact absurd (hedges ▸ he) List.not_mem_nil
  | first :: rest =>
      rw [hedges] at hsorted he hlate
      have hfirst := hlate first rfl
      rcases List.mem_cons.mp he with rfl | hrest
      · exact hfirst
      · exact Int.lt_of_lt_of_le hfirst (List.rel_of_pairwise_cons hsorted hrest)

theorem le_of_mem_tick (now : Time) (accepting : Bool) {e : Edge}
    (he : e ∈ (s.tick now accepting).2) : e.fireAt ≤ now := by
  rw [tick_edges] at he
  obtain ⟨lane, -, hwalk⟩ := List.mem_flatMap.mp he
  exact walkLane_due _ _ _ _ hwalk

theorem mem_lane_of_mem_tick (now : Time) (accepting : Bool) {e : Edge}
    (he : e ∈ (s.tick now accepting).2) : ∃ lane ∈ s.lanes, e ∈ lane.edges := by
  rw [tick_edges] at he
  obtain ⟨lane, hlane, hwalk⟩ := List.mem_flatMap.mp he
  exact ⟨lane, hlane, (walkLane_handed_sublist _ _ _ _).subset hwalk⟩

/-! ### The other operations -/

theorem edgesWhere_cancelIf (s : Scheduler) (which : Nat → Bool) (q : Edge → Bool) :
    (s.cancelIf which).edgesWhere q = s.edgesWhere q := rfl

theorem plannedWhere_retire (s : Scheduler) (q : Edge → Bool) :
    s.retire.1.plannedWhere q = s.plannedWhere q := by
  rw [plannedWhere_eq, plannedWhere_eq, retire_lanes]
  congr 1
  refine List.flatMap_congr fun lane hlane => ?_
  rw [plannedOf, isCancelled_retire s hlane, plannedOf]

theorem isCancelled_schedule (s : Scheduler) (requests : List Request) (reference : Time)
    (id : Nat) : (s.schedule requests reference).1.isCancelled id = s.isCancelled id := by
  simp only [isCancelled, schedule, List.any_append, List.any_cons, List.any_nil, Bool.and_false,
    Bool.or_false]

section Schedule

variable (s : Scheduler) (requests : List Request) (reference : Time)
  (hq : ∀ e ∈ batchEdges s.nextBatch reference s.nextPair requests, ¬q e)

include hq

theorem filter_newLanes (f : Lane → List Edge) (hf : ∀ lane, (f lane).Sublist lane.edges) :
    ((newLanes s.nextBatch reference s.nextPair requests).flatMap f).filter q = [] := by
  rw [List.filter_eq_nil_iff]
  intro e he
  obtain ⟨lane, hlane, hmem⟩ := List.mem_flatMap.mp he
  exact hq e ((mem_newLanes hlane).2.2.2.2 e ((hf lane).subset hmem))

theorem edgesWhere_schedule :
    (s.schedule requests reference).1.edgesWhere q = s.edgesWhere q := by
  rw [edgesWhere_eq, edgesWhere_eq, schedule_lanes, List.flatMap_append, List.filter_append,
    filter_newLanes s requests reference hq Lane.edges fun lane => List.Sublist.refl lane.edges,
    List.append_nil]

theorem plannedWhere_schedule :
    (s.schedule requests reference).1.plannedWhere q = s.plannedWhere q := by
  have hplanned : (s.schedule requests reference).1.plannedOf = s.plannedOf := by
    funext lane
    rw [plannedOf, isCancelled_schedule, plannedOf]
  rw [plannedWhere_eq, plannedWhere_eq, hplanned, schedule_lanes, List.flatMap_append,
    List.filter_append, filter_newLanes s requests reference hq s.plannedOf s.plannedOf_sublist,
    List.append_nil]

end Schedule

/-- A cancellation of other batches leaves the plan as it is. -/
theorem plannedWhere_cancelIf_of_not (s : Scheduler) {which : Nat → Bool}
    (hother : ∀ lane ∈ s.bearers q, which lane.batch = false) :
    (s.cancelIf which).plannedWhere q = s.plannedWhere q := by
  unfold plannedWhere
  refine List.flatMap_congr fun lane hlane => ?_
  rw [plannedOf, isCancelled_cancelIf, hother lane hlane, Bool.false_and, Bool.or_false, plannedOf]

end CrowdPad.Scheduler
