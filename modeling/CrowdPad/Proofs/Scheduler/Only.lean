import CrowdPad.Proofs.Scheduler.Orderly

/-! One batch of a scheduler. No operation lets one batch see another: what a scheduler does about a
batch it does likewise when it has no other. -/

namespace CrowdPad.Scheduler

variable {s : Scheduler}

/-- The scheduler without the other batches. -/
def only (s : Scheduler) (id : Nat) : Scheduler :=
  { s with
    batches := s.batches.filter fun b => b.id == id
    lanes := s.lanes.filter fun lane => lane.batch == id }

theorem only_only (s : Scheduler) (id : Nat) : (s.only id).only id = s.only id := by
  simp only [only, List.filter_filter, Bool.and_self]

/-! ### Lanes -/

theorem isCancelled_only {id : Nat} {lane : Lane} (hlane : lane.batch = id) :
    (s.only id).isCancelled lane.batch = s.isCancelled lane.batch := by
  rw [isCancelled, isCancelled, only, List.any_filter, hlane]
  congr 1
  funext b
  cases b.id == id <;> rfl

theorem walkOf_only {id : Nat} (now : Time) {lane : Lane} (hlane : lane.batch = id) :
    (s.only id).walkOf now lane = s.walkOf now lane := by
  rw [walkOf, isCancelled_only hlane, walkOf]

theorem isStill_only {id : Nat} (now : Time) {lane : Lane} (hlane : lane.batch = id) :
    (s.only id).isStill now lane = s.isStill now lane := by
  rw [isStill, walkOf_only now hlane, isStill]

theorem laneAfter_only {id : Nat} (now : Time) {lane : Lane} (hlane : lane.batch = id) :
    (s.only id).laneAfter now lane = s.laneAfter now lane := by
  rw [laneAfter, walkOf_only now hlane, laneAfter]

/-- Conditions that agree on what belongs to a batch pick out the same of it. -/
theorem filter_owner_congr {α : Type} (owner : α → Nat) {id : Nat} {p q : α → Bool}
    (hpq : ∀ a, owner a = id → p a = q a) (xs : List α) :
    (xs.filter fun a => owner a == id).filter p =
      (xs.filter q).filter fun a => owner a == id := by
  rw [List.filter_filter, List.filter_filter]
  apply List.filter_congr
  intro a _
  by_cases hid : owner a = id
  · rw [hpq a hid, Bool.and_comm]
  · rw [beq_eq_false_iff_ne.mpr hid, Bool.and_false, Bool.false_and]

/-! ### A tick -/

theorem tick_only_lanes (s : Scheduler) (id : Nat) (now : Time) (accepting : Bool) :
    ((s.only id).tick now accepting).1.lanes = ((s.tick now accepting).1.only id).lanes := by
  have hstill : (s.lanes.filter fun lane => lane.batch == id).filter ((s.only id).isStill now) =
      (s.lanes.filter (s.isStill now)).filter fun lane => lane.batch == id :=
    filter_owner_congr Lane.batch (fun lane hlane => isStill_only now hlane) s.lanes
  have hmoving : (s.lanes.filter fun lane => lane.batch == id).filter
      (fun lane => !(s.only id).isStill now lane) =
      (s.lanes.filter fun lane => !s.isStill now lane).filter fun lane => lane.batch == id :=
    filter_owner_congr Lane.batch (fun lane hlane => congrArg (!·) (isStill_only now hlane)) s.lanes
  have hmoved : ((s.lanes.filter fun lane => lane.batch == id).filter
      fun lane => !(s.only id).isStill now lane).map ((s.only id).laneAfter now) =
      ((s.lanes.filter fun lane => !s.isStill now lane).map (s.laneAfter now)).filter
        fun lane => lane.batch == id := by
    rw [hmoving, List.filter_map]
    apply List.map_congr_left
    intro lane hlane
    exact laneAfter_only now (beq_iff_eq.mp (List.mem_filter.mp hlane).2)
  calc ((s.only id).tick now accepting).1.lanes
      = (s.lanes.filter fun lane => lane.batch == id).filter ((s.only id).isStill now) ++
          (((s.lanes.filter fun lane => lane.batch == id).filter
            fun lane => !(s.only id).isStill now lane).map ((s.only id).laneAfter now)).filter
              fun lane => !lane.edges.isEmpty := tick_lanes _ _ _
    _ = ((s.tick now accepting).1.lanes).filter fun lane => lane.batch == id := by
        rw [hstill, hmoved, tick_lanes, List.filter_append]
        congr 1
        exact filter_owner_congr Lane.batch (fun _ _ => rfl) _

theorem flatMap_batch {id : Nat} {f : Lane → List Edge} {lanes : List Lane}
    (howned : ∀ lane ∈ lanes, ∀ e ∈ f lane, e.batch = lane.batch) :
    (lanes.filter fun lane => lane.batch == id).flatMap f =
      (lanes.flatMap f).filter fun e => e.batch == id := by
  induction lanes with
  | nil => rfl
  | cons lane rest ih =>
      have hfirst : ∀ e ∈ f lane, (e.batch == id) = (lane.batch == id) :=
        fun e he => by rw [howned lane (List.mem_cons_self ..) e he]
      have hrest := ih fun other hother => howned other (List.mem_cons_of_mem _ hother)
      rw [List.flatMap_cons, List.filter_append, List.filter_congr hfirst, ← hrest]
      by_cases hlane : lane.batch = id
      · rw [List.filter_cons_of_pos (by rw [hlane, BEq.rfl]), List.flatMap_cons,
          beq_iff_eq.mpr hlane, List.filter_true]
      · rw [List.filter_cons_of_neg (by rwa [beq_iff_eq]), beq_eq_false_iff_ne.mpr hlane,
          List.filter_false, List.nil_append]

theorem Orderly.tick_only_edges (h : s.Orderly) (id : Nat) (now : Time) (accepting : Bool) :
    ((s.only id).tick now accepting).2 =
      (s.tick now accepting).2.filter fun e => e.batch == id := by
  have howned : ∀ lane ∈ s.lanes, ∀ e ∈ (s.walkOf now lane).handed, e.batch = lane.batch :=
    fun lane hlane e he =>
      (h.owned lane hlane e ((walkLane_handed_sublist _ _ _ _).subset he)).1
  rw [tick_edges, tick_edges, ← flatMap_batch howned]
  refine List.flatMap_congr fun lane hlane => ?_
  rw [walkOf_only now (beq_iff_eq.mp (List.mem_filter.mp hlane).2)]

theorem tallyAfter_only {id : Nat} (now : Time) (accepting : Bool) {b : Batch} (hb : b.id = id) :
    (s.only id).tallyAfter now accepting b = s.tallyAfter now accepting b := by
  have hlanes : ((s.only id).lanes.filter fun lane => lane.batch == b.id) =
      s.lanes.filter fun lane => lane.batch == b.id := by
    rw [only, hb, List.filter_filter]
    simp only [Bool.and_self]
  rw [tallyAfter, hlanes, tallyAfter]
  apply List.foldl_ext
  intro tally lane hlane
  rw [walkOf_only now ((beq_iff_eq.mp (List.mem_filter.mp hlane).2).trans hb)]

theorem tick_only_batches (s : Scheduler) (id : Nat) (now : Time) (accepting : Bool) :
    ((s.only id).tick now accepting).1.batches = ((s.tick now accepting).1.only id).batches := by
  rw [tick_batches, only, only, tick_batches, List.filter_map]
  apply List.map_congr_left
  intro b hb
  rw [← only, tallyAfter_only now accepting (beq_iff_eq.mp (List.mem_filter.mp hb).2)]

/-- A tick does about a batch what it does where there is no other. -/
theorem Orderly.tick_only (h : s.Orderly) (id : Nat) (now : Time) (accepting : Bool) :
    (s.only id).tick now accepting = ((s.tick now accepting).1.only id,
      (s.tick now accepting).2.filter fun e => e.batch == id) := by
  have hparts : (s.only id).tick now accepting =
      ({ s with batches := ((s.only id).tick now accepting).1.batches
                lanes := ((s.only id).tick now accepting).1.lanes },
        ((s.only id).tick now accepting).2) := rfl
  rw [hparts, tick_only_lanes, tick_only_batches, h.tick_only_edges]
  rfl

/-! ### The other operations -/

theorem isWaiting_only {id : Nat} {b : Batch} (hb : b.id = id) :
    (s.only id).isWaiting b = s.isWaiting b := by
  rw [isWaiting, isWaiting, only, List.any_filter, hb]
  congr 1
  funext lane
  rw [Bool.and_self]

theorem retire_only (s : Scheduler) (id : Nat) :
    (s.only id).retire = (s.retire.1.only id, s.retire.2.filter fun b => b.id == id) := by
  have hwaiting : (s.batches.filter fun b => b.id == id).filter (s.only id).isWaiting =
      (s.batches.filter s.isWaiting).filter fun b => b.id == id :=
    filter_owner_congr Batch.id (fun b hb => isWaiting_only hb) s.batches
  have hended : (s.batches.filter fun b => b.id == id).filter (fun b => !(s.only id).isWaiting b) =
      (s.batches.filter fun b => !s.isWaiting b).filter fun b => b.id == id :=
    filter_owner_congr Batch.id (fun b hb => congrArg (!·) (isWaiting_only hb)) s.batches
  have hparts : (s.only id).retire =
      ({ s.only id with
          batches := (s.batches.filter fun b => b.id == id).filter (s.only id).isWaiting },
        (s.batches.filter fun b => b.id == id).filter fun b => !(s.only id).isWaiting b) := rfl
  rw [hparts, hwaiting, hended]
  rfl

theorem cancelIf_only (s : Scheduler) (which : Nat → Bool) (id : Nat) :
    (s.only id).cancelIf which = (s.cancelIf which).only id := by
  have hids : ∀ b ∈ s.batches, ((if which b.id then { b with cancelled := true } else b).id == id) =
      (b.id == id) := by
    intro b _
    split <;> rfl
  rw [only, cancelIf, cancelIf, only, List.filter_map]
  simp only [Function.comp_def, List.filter_congr hids]

theorem schedule_only (s : Scheduler) (requests : List Request) (reference : Time) (id : Nat) :
    ((s.only id).schedule requests reference).1.only id =
      (s.schedule requests reference).1.only id := by
  simp only [only, schedule, List.filter_append, List.filter_filter, Bool.and_self]

end CrowdPad.Scheduler
