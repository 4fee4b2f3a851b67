import CrowdPad.Proofs.Scheduler.Lane
import CrowdPad.Scheduler.Basic

/-! What the operations of a scheduler do to its lanes. A tick walks every lane once and changes
nothing else that lanes depend on; taking out the batches that are over changes nothing about the
lanes that are left. A cancellation leaves the lanes alone and marks their batches. -/

namespace CrowdPad.Scheduler

variable (s : Scheduler) (now : Time) (accepting : Bool)

/-- What a lane does at a moment, with its batch cancelled or not. -/
def walkOf (lane : Lane) : LaneWalk := lane.walk now (s.isCancelled lane.batch)

def laneAfter (lane : Lane) : Lane := lane.after (s.walkOf now lane)

/-- What a lane has planned, with its batch cancelled or not. -/
def plannedOf (lane : Lane) : List Edge := lane.planned (s.isCancelled lane.batch)

/-! ### A lane and its walk -/

theorem laneAfter_suffix (lane : Lane) : (s.laneAfter now lane).edges <:+ lane.edges :=
  walkLane_suffix now (s.isCancelled lane.batch) lane.skipped lane.edges

theorem walkOf_handed_append (lane : Lane) :
    (s.walkOf now lane).handed ++ s.plannedOf (s.laneAfter now lane) = s.plannedOf lane :=
  walkLane_handed_append now (s.isCancelled lane.batch) lane.skipped lane.edges

/-- Whether a walk takes no edge off a lane. -/
def isStill (lane : Lane) : Bool := (s.walkOf now lane).rest.length = lane.edges.length

theorem walkOf_of_isStill {lane : Lane} (h : s.isStill now lane) :
    s.walkOf now lane = { rest := lane.edges, skipped := lane.skipped } :=
  walkLane_eq_of_length now (s.isCancelled lane.batch) lane.skipped lane.edges (of_decide_eq_true h)

theorem laneAfter_of_isStill {lane : Lane} (h : s.isStill now lane) :
    s.laneAfter now lane = lane := by
  rw [laneAfter, walkOf_of_isStill s now h]
  rfl

/-! ### A tick -/

theorem tick_edges :
    (s.tick now accepting).2 = s.lanes.flatMap fun lane => (s.walkOf now lane).handed := by
  rw [tick, walks, List.flatMap_map]
  rfl

theorem tick_lanes :
    (s.tick now accepting).1.lanes = s.lanes.filter (s.isStill now) ++
      ((s.lanes.filter fun lane => !s.isStill now lane).map (s.laneAfter now)).filter
        fun lane => !lane.edges.isEmpty := by
  simp only [tick, walks, List.filter_map, List.map_map]
  congr 1
  exact List.map_id'' (fun _ => rfl) _

/-- Up to their order the lanes behind a tick are the walked lanes that still hold edges. -/
theorem tick_lanes_perm (hne : ∀ lane ∈ s.lanes, lane.edges ≠ []) :
    (s.tick now accepting).1.lanes.Perm
      ((s.lanes.map (s.laneAfter now)).filter fun lane => !lane.edges.isEmpty) := by
  have hstill : ((s.lanes.filter (s.isStill now)).map (s.laneAfter now)).filter
      (fun lane => !lane.edges.isEmpty) = s.lanes.filter (s.isStill now) := by
    have hmap : (s.lanes.filter (s.isStill now)).map (s.laneAfter now) =
        s.lanes.filter (s.isStill now) := by
      refine (List.map_congr_left fun lane hlane => ?_).trans (List.map_id _)
      exact laneAfter_of_isStill s now (List.mem_filter.mp hlane).2
    rw [hmap, List.filter_eq_self]
    intro lane hlane
    simpa only [Bool.not_eq_true', List.isEmpty_eq_false_iff] using
      hne lane (List.mem_filter.mp hlane).1
  rw [tick_lanes]
  refine List.Perm.trans ?_
    (((List.filter_append_perm (s.isStill now) s.lanes).map (s.laneAfter now)).filter _)
  rw [List.map_append, List.filter_append, hstill]

theorem mem_tick_lanes {lane : Lane} (h : lane ∈ (s.tick now accepting).1.lanes) :
    ∃ before ∈ s.lanes, lane = s.laneAfter now before := by
  rw [tick_lanes, List.mem_append] at h
  rcases h with hstill | hmoved
  · obtain ⟨hmem, hlane⟩ := List.mem_filter.mp hstill
    exact ⟨lane, hmem, (laneAfter_of_isStill s now hlane).symm⟩
  · obtain ⟨before, hbefore, rfl⟩ := List.mem_map.mp (List.mem_filter.mp hmoved).1
    exact ⟨before, (List.mem_filter.mp hbefore).1, rfl⟩

def tallyAfter (b : Batch) : Tally :=
  (s.lanes.filter fun lane => lane.batch == b.id).foldl
    (fun tally lane => tally.addWalk accepting (s.walkOf now lane)) b.tally

theorem tick_batches :
    (s.tick now accepting).1.batches =
      s.batches.map fun b => { b with tally := s.tallyAfter now accepting b } := by
  simp only [tick, walks, List.filter_map, List.foldl_map]
  rfl

theorem tallyAfter_eq_self (hstill : ∀ lane ∈ s.lanes, s.isStill now lane) (b : Batch) :
    s.tallyAfter now accepting b = b.tally := by
  refine List.foldlRecOn _ _ (motive := fun tally => tally = b.tally) rfl ?_
  intro tally htally lane hlane
  rw [walkOf_of_isStill s now (hstill lane (List.mem_filter.mp hlane).1), htally]
  cases accepting <;> rfl

/-- A tick of a scheduler none of whose lanes moves does nothing. -/
theorem tick_eq_self (hstill : ∀ lane ∈ s.lanes, s.isStill now lane) :
    s.tick now accepting = (s, []) := by
  have hedges : (s.tick now accepting).2 = [] := by
    rw [tick_edges, List.flatMap_eq_nil_iff]
    intro lane hlane
    rw [walkOf_of_isStill s now (hstill lane hlane)]
  have hlanes : (s.tick now accepting).1.lanes = s.lanes := by
    have hmoved : s.lanes.filter (fun lane => !s.isStill now lane) = [] := by
      rw [List.filter_eq_nil_iff]
      intro lane hlane
      rw [hstill lane hlane, Bool.not_true]
      exact Bool.false_ne_true
    rw [tick_lanes, hmoved, List.map_nil, List.filter_nil, List.append_nil, List.filter_eq_self]
    exact hstill
  have hbatches : (s.tick now accepting).1.batches = s.batches := by
    rw [tick_batches]
    refine (List.map_congr_left fun b _ => ?_).trans (List.map_id _)
    rw [tallyAfter_eq_self s now accepting hstill]
    rfl
  have hparts : s.tick now accepting =
      ({ s with batches := (s.tick now accepting).1.batches
                lanes := (s.tick now accepting).1.lanes }, (s.tick now accepting).2) := rfl
  rw [hparts, hedges, hlanes, hbatches]

@[simp] theorem isActive_tick (id : Nat) :
    (s.tick now accepting).1.isActive id = s.isActive id := by
  simp only [isActive, tick, List.any_map]
  rfl

@[simp] theorem isCancelled_tick (id : Nat) :
    (s.tick now accepting).1.isCancelled id = s.isCancelled id := by
  simp only [isCancelled, tick, List.any_map]
  rfl

@[simp] theorem plannedOf_tick (lane : Lane) :
    (s.tick now accepting).1.plannedOf lane = s.plannedOf lane := by
  rw [plannedOf, isCancelled_tick, plannedOf]

/-- Whether a walked lane moves again depends on the edge in front of it. -/
theorem isStill_tick (later : Time) {lane : Lane} (hlane : lane ∈ (s.tick now accepting).1.lanes)
    (hlate : ∀ e, lane.edges.head? = some e → later < e.fireAt) :
    (s.tick now accepting).1.isStill later lane := by
  obtain ⟨before, -, rfl⟩ := mem_tick_lanes s now accepting hlane
  have hcancelled : (s.tick now accepting).1.isCancelled (s.laneAfter now before).batch =
      s.isCancelled before.batch := isCancelled_tick s now accepting _
  have hstays := walkLane_stays now (s.isCancelled before.batch) before.skipped before.edges later
    hlate
  rw [isStill, walkOf, Lane.walk, hcancelled]
  exact decide_eq_true (congrArg (fun walk => walk.rest.length) hstays)

/-- A second tick at one moment does nothing. -/
theorem tick_tick (taking : Bool) :
    (s.tick now accepting).1.tick now taking = ((s.tick now accepting).1, []) := by
  apply tick_eq_self
  intro lane hlane
  apply isStill_tick s now accepting now hlane
  intro e he
  obtain ⟨before, -, rfl⟩ := mem_tick_lanes s now accepting hlane
  exact walkLane_head_late _ _ _ _ he

/-! ### Taking out what is over -/

theorem retire_lanes : s.retire.1.lanes = s.lanes := rfl

theorem retire_batches : s.retire.1.batches = s.batches.filter s.isWaiting := rfl

/-- Where every batch has a lane, none is over. -/
theorem retire_eq_self (hwaiting : ∀ b ∈ s.batches, s.isWaiting b) : s.retire = (s, []) := by
  have hended : s.batches.filter (fun b => !s.isWaiting b) = [] := by
    rw [List.filter_eq_nil_iff]
    intro b hb
    rw [hwaiting b hb, Bool.not_true]
    exact Bool.false_ne_true
  rw [retire, hended, List.filter_eq_self.mpr hwaiting]

/-- A batch with a lane stays, so that the lane remains cancelled or not. -/
theorem isCancelled_retire {lane : Lane} (h : lane ∈ s.lanes) :
    s.retire.1.isCancelled lane.batch = s.isCancelled lane.batch := by
  rw [isCancelled, isCancelled, retire_batches, List.any_filter]
  congr 1
  funext b
  by_cases hb : b.id = lane.batch
  · have hwaiting : s.isWaiting b := by
      rw [isWaiting, List.any_eq_true]
      exact ⟨lane, h, by rw [hb, BEq.rfl]⟩
    rw [hwaiting, Bool.true_and]
  · rw [beq_eq_false_iff_ne.mpr hb, Bool.false_and, Bool.and_false]

theorem isStill_retire (later : Time) {lane : Lane} (h : lane ∈ s.lanes) :
    s.retire.1.isStill later lane = s.isStill later lane := by
  rw [isStill, walkOf, isCancelled_retire s h, isStill, walkOf]

/-! ### Cancelling -/

/-- Cancels the batches that a condition picks out. -/
def cancelIf (which : Nat → Bool) : Scheduler :=
  { s with
    batches := s.batches.map fun b => if which b.id then { b with cancelled := true } else b }

theorem cancel_eq_cancelIf (id : Nat) : s.cancel id = s.cancelIf (· == id) := by
  simp only [cancel, cancelIf, beq_iff_eq]

theorem cancelAll_eq_cancelIf : s.cancelAll = s.cancelIf fun _ => true := by
  simp only [cancelAll, cancelIf, if_true]

/-- Cancelling again what is cancelled changes nothing. -/
theorem cancelIf_eq_self {which : Nat → Bool}
    (hcancelled : ∀ b ∈ s.batches, which b.id → b.cancelled) : s.cancelIf which = s := by
  have hbatches : (s.batches.map fun b => if which b.id then { b with cancelled := true } else b) =
      s.batches := by
    refine (List.map_congr_left fun b hb => ?_).trans (List.map_id _)
    by_cases hwhich : which b.id
    · rw [if_pos hwhich, ← hcancelled b hb hwhich]
      rfl
    · rw [if_neg hwhich]
      rfl
  rw [cancelIf, hbatches]

theorem isCancelled_cancelIf (which : Nat → Bool) (id : Nat) :
    (s.cancelIf which).isCancelled id = (s.isCancelled id || which id && s.isActive id) := by
  simp only [isCancelled, isActive, cancelIf, List.any_map]
  rw [Bool.eq_iff_iff]
  simp only [List.any_eq_true, Function.comp_apply, Bool.or_eq_true, Bool.and_eq_true, beq_iff_eq]
  constructor
  · rintro ⟨b, hb, hid⟩
    by_cases hwhich : which b.id
    · rw [if_pos hwhich] at hid
      exact Or.inr ⟨hid.1 ▸ hwhich, b, hb, hid.1⟩
    · rw [if_neg hwhich] at hid
      exact Or.inl ⟨b, hb, hid⟩
  · rintro (⟨b, hb, hid, hcancelled⟩ | ⟨hwhich, b, hb, hid⟩)
    · refine ⟨b, hb, ?_⟩
      split
      · exact ⟨hid, rfl⟩
      · exact ⟨hid, hcancelled⟩
    · rw [← hid] at hwhich
      refine ⟨b, hb, ?_⟩
      rw [if_pos hwhich]
      exact ⟨hid, rfl⟩

end CrowdPad.Scheduler
