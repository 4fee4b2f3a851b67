import CrowdPad.Proofs.Scheduler.Held
import CrowdPad.Proofs.Scheduler.Only

/-! The tallies of batches. A walk takes edges off a lane for three reasons: it hands them over, it
gives a press up, or it passes over the release of a press that was given up. The last comes later
than the press, so that in between a lane owes releases to its tally. -/

namespace CrowdPad

/-! ### One lane -/

section Walk

variable (now : Time) (cancelled : Bool) (skipped : List Nat) (edges : List Edge)

/-- Every edge of a lane stays, is handed over, or is half of a pair given up. -/
theorem walkLane_length :
    (walkLane now cancelled skipped edges).rest.length +
        (walkLane now cancelled skipped edges).handed.length +
        2 * (walkLane now cancelled skipped edges).suppressed + skipped.length =
      edges.length + (walkLane now cancelled skipped edges).skipped.length := by
  fun_induction walkLane now cancelled skipped edges with
  | case1 | case4 | case7 => simp
  | case2 skipped e rest hpress hcancelled walk ih =>
      simp only [List.length_cons, walk] at ih ⊢
      omega
  | case3 skipped e rest hpress hcancelled hdue walk ih =>
      simp only [List.length_cons, walk]
      omega
  | case5 skipped e rest hrelease hskipped ih =>
      have hmem : e.pair ∈ skipped := List.contains_iff_mem.mp hskipped
      have hpos := List.length_pos_of_mem hmem
      rw [List.length_erase_of_mem hmem] at ih
      simp only [List.length_cons]
      omega
  | case6 skipped e rest hrelease hskipped hdue walk ih =>
      simp only [List.length_cons, walk]
      omega

theorem walkLane_skipped_le :
    (walkLane now cancelled skipped edges).skipped.length ≤
      skipped.length + (walkLane now cancelled skipped edges).suppressed := by
  fun_induction walkLane now cancelled skipped edges with
  | case1 | case4 | case7 => simp
  | case2 skipped e rest hpress hcancelled walk ih =>
      simp only [List.length_cons, walk] at ih ⊢
      omega
  | case3 skipped e rest hpress hcancelled hdue walk ih => exact ih
  | case5 skipped e rest hrelease hskipped ih =>
      exact Nat.le_trans ih (Nat.add_le_add_right List.length_erase_le _)
  | case6 skipped e rest hrelease hskipped hdue walk ih => exact ih

end Walk

/-- A lane without edges owes nothing. -/
theorem Lane.Matched.skipped_eq_nil {lane : Lane} (h : lane.Matched) (hnil : lane.edges = []) :
    lane.skipped = [] := by
  obtain ⟨begun, hclosed, hskipped⟩ := h
  rw [hnil, Closes] at hclosed
  rw [hclosed] at hskipped
  exact List.subperm_nil.mp hskipped

namespace Scheduler

variable {s : Scheduler}

/-- The lanes of a batch. -/
def lanesOf (s : Scheduler) (id : Nat) : List Lane := s.lanes.filter fun lane => lane.batch == id

/-- The number of edges of a batch that are still in their lanes. -/
def edgesLeft (s : Scheduler) (id : Nat) : Nat :=
  ((s.lanesOf id).map fun lane => lane.edges.length).sum

/-- The number of releases of a batch that are still in their lanes though their presses were given
up. -/
def owed (s : Scheduler) (id : Nat) : Nat :=
  ((s.lanesOf id).map fun lane => lane.skipped.length).sum

/-- The number of presses of a batch that a tick gives up. -/
def givenUp (s : Scheduler) (now : Time) (id : Nat) : Nat :=
  ((s.lanesOf id).map fun lane => (s.walkOf now lane).suppressed).sum

/-! ### A tick -/

/-- What is counted over the lanes of a batch, and not of empty ones, is counted over walked lanes
behind a tick. -/
theorem Orderly.sum_lanesOf_tick (h : s.Orderly) (now : Time) (accepting : Bool) (id : Nat)
    {f : Lane → Nat} (hf : ∀ lane ∈ s.lanes, (s.laneAfter now lane).edges = [] →
      f (s.laneAfter now lane) = 0) :
    (((s.tick now accepting).1.lanesOf id).map f).sum =
      ((s.lanesOf id).map fun lane => f (s.laneAfter now lane)).sum := by
  have hperm : ((s.tick now accepting).1.lanesOf id).Perm
      (((s.lanesOf id).map (s.laneAfter now)).filter fun lane => !lane.edges.isEmpty) := by
    refine ((tick_lanes_perm s now accepting h.ne_nil).filter _).trans (List.Perm.of_eq ?_)
    rw [List.filter_comm, List.filter_map]
    rfl
  rw [(hperm.map f).sum_nat, sum_map_filter, List.map_map]
  · rfl
  · intro after hafter hempty
    obtain ⟨lane, hlane, rfl⟩ := List.mem_map.mp hafter
    exact hf lane (List.mem_filter.mp hlane).1 (by simpa using hempty)

theorem Orderly.filter_batch_tick (h : s.Orderly) (now : Time) (accepting : Bool) (id : Nat) :
    ((s.tick now accepting).2.filter fun e => e.batch == id) =
      (s.lanesOf id).flatMap fun lane => (s.walkOf now lane).handed := by
  rw [tick_edges, lanesOf, flatMap_batch]
  intro lane hlane e he
  exact (h.owned lane hlane e ((walkLane_handed_sublist _ _ _ _).subset he)).1

theorem Paired.owed_tick (hpaired : s.Paired) (h : s.Orderly) (now : Time) (accepting : Bool)
    (id : Nat) : (s.tick now accepting).1.owed id =
      ((s.lanesOf id).map fun lane => (s.laneAfter now lane).skipped.length).sum := by
  apply h.sum_lanesOf_tick now accepting id
  intro lane hlane hnil
  have hmatched := (matched_laneAfter s now (hpaired.matched lane hlane)).1
  rw [hmatched.skipped_eq_nil hnil]
  rfl

/-- Every edge of a batch stays in its lane, is handed over, or is half of a pair given up. -/
theorem Paired.edgesLeft_tick (hpaired : s.Paired) (h : s.Orderly) (now : Time) (accepting : Bool)
    (id : Nat) :
    (s.tick now accepting).1.edgesLeft id +
        (s.tick now accepting).2.countP (fun e => e.batch == id) + 2 * s.givenUp now id + s.owed id =
      s.edgesLeft id + (s.tick now accepting).1.owed id := by
  have hleft : (s.tick now accepting).1.edgesLeft id =
      ((s.lanesOf id).map fun lane => (s.laneAfter now lane).edges.length).sum :=
    h.sum_lanesOf_tick now accepting id fun lane _ hnil => by rw [hnil]; rfl
  rw [hleft, hpaired.owed_tick h, List.countP_eq_length_filter, h.filter_batch_tick, givenUp, owed,
    edgesLeft]
  induction s.lanesOf id with
  | nil => rfl
  | cons lane lanes ih =>
      have hlane := walkLane_length now (s.isCancelled lane.batch) lane.skipped lane.edges
      simp only [List.map_cons, List.sum_cons, List.flatMap_cons, List.length_append, laneAfter,
        Lane.after, walkOf, Lane.walk] at ih ⊢
      omega

theorem Paired.owed_tick_le (hpaired : s.Paired) (h : s.Orderly) (now : Time) (accepting : Bool)
    (id : Nat) : (s.tick now accepting).1.owed id ≤ s.owed id + s.givenUp now id := by
  rw [hpaired.owed_tick h, owed, givenUp]
  induction s.lanesOf id with
  | nil => exact Nat.le_refl _
  | cons lane lanes ih =>
      have hlane := walkLane_skipped_le now (s.isCancelled lane.batch) lane.skipped lane.edges
      simp only [List.map_cons, List.sum_cons, laneAfter, Lane.after, walkOf, Lane.walk] at ih ⊢
      omega

theorem foldl_addWalk (accepting : Bool) (walks : Lane → LaneWalk) (lanes : List Lane)
    (tally : Tally) :
    lanes.foldl (fun tally lane => tally.addWalk accepting (walks lane)) tally =
      { presses := tally.presses +
          (lanes.flatMap fun lane => (walks lane).handed).countP fun e => accepting && e.isPress
        releases := tally.releases +
          (lanes.flatMap fun lane => (walks lane).handed).countP fun e => accepting && !e.isPress
        suppressed := tally.suppressed + (lanes.map fun lane => (walks lane).suppressed).sum
        failed := tally.failed +
          (lanes.flatMap fun lane => (walks lane).handed).countP fun _ => !accepting } := by
  induction lanes generalizing tally with
  | nil => simp
  | cons lane lanes ih =>
      have hreleases : (walks lane).handed.length - (walks lane).handed.countP Edge.isPress =
          (walks lane).handed.countP fun e => !e.isPress := by
        have hlength := List.length_eq_countP_add_countP Edge.isPress (l := (walks lane).handed)
        simp only [Bool.not_eq_true, Bool.decide_eq_false] at hlength
        omega
      rw [List.foldl_cons, ih, Tally.addWalk]
      simp only [← List.countP_eq_length_filter, hreleases]
      cases accepting with
      | true => simp [Nat.add_assoc]
      | false => simp [Nat.add_assoc]

/-- A tick adds to the tally of a batch what becomes of its edges. -/
theorem Orderly.tallyAfter_eq (h : s.Orderly) (now : Time) (accepting : Bool) (b : Batch) :
    s.tallyAfter now accepting b =
      { presses := b.tally.presses + (s.tick now accepting).2.countP
          fun e => e.batch == b.id && (accepting && e.isPress)
        releases := b.tally.releases + (s.tick now accepting).2.countP
          fun e => e.batch == b.id && (accepting && !e.isPress)
        suppressed := b.tally.suppressed + s.givenUp now b.id
        failed := b.tally.failed + (s.tick now accepting).2.countP
          fun e => e.batch == b.id && !accepting } := by
  have hcount : ∀ p : Edge → Bool,
      ((s.lanesOf b.id).flatMap fun lane => (s.walkOf now lane).handed).countP p =
        (s.tick now accepting).2.countP fun e => e.batch == b.id && p e := by
    intro p
    rw [← h.filter_batch_tick now accepting b.id, List.countP_filter]
    simp only [Bool.and_comm]
  rw [tallyAfter, ← lanesOf, foldl_addWalk, hcount, hcount, hcount, givenUp]

/-! ### All batches -/

/-- What is counted over all is counted once over those of every owner. -/
theorem sum_map_owners {α κ : Type} [BEq κ] [LawfulBEq κ] (owner : α → κ) (f : α → Nat)
    {owners : List κ} (hnodup : owners.Nodup) {as : List α} (hmem : ∀ a ∈ as, owner a ∈ owners) :
    (as.map f).sum =
      (owners.map fun k => ((as.filter fun a => owner a == k).map f).sum).sum := by
  induction owners generalizing as with
  | nil =>
      have hnil : as = [] := List.eq_nil_iff_forall_not_mem.mpr fun a ha =>
        absurd (hmem a ha) List.not_mem_nil
      rw [hnil]
      rfl
  | cons k owners ih =>
      obtain ⟨hfresh, hrest⟩ := List.nodup_cons.mp hnodup
      have hkept : ∀ a ∈ as.filter fun a => !owner a == k, owner a ∈ owners := by
        intro a ha
        obtain ⟨hin, hne⟩ := List.mem_filter.mp ha
        exact (List.mem_cons.mp (hmem a hin)).resolve_left (by simpa using hne)
      have hothers := ih hrest hkept
      have hsame : ∀ k' ∈ owners, ((as.filter fun a => !owner a == k).filter
          fun a => owner a == k') = as.filter fun a => owner a == k' := by
        intro k' hk'
        have hne : k' ≠ k := fun heq => hfresh (heq ▸ hk')
        rw [List.filter_filter]
        refine List.filter_congr fun a _ => ?_
        cases ha : owner a == k' with
        | true => simp [beq_iff_eq.mp ha, hne]
        | false => rfl
      have hsplit := ((List.filter_append_perm (fun a => owner a == k) as).map f).sum_nat
      rw [List.map_append, List.sum_append, hothers] at hsplit
      rw [List.map_cons, List.sum_cons, ← hsplit]
      congr 2
      exact List.map_congr_left fun k' hk' => by rw [hsame k' hk']

/-- Every pending edge is one of a batch that is not over. -/
theorem Orderly.pendingEdges_eq (h : s.Orderly) (hnodup : (s.batches.map Batch.id).Nodup) :
    s.pendingEdges = (s.batches.map fun b => s.edgesLeft b.id).sum := by
  have hmem : ∀ lane ∈ s.lanes, lane.batch ∈ s.batches.map Batch.id := by
    intro lane hlane
    obtain ⟨b, hb, hid⟩ := isActive_iff.mp (h.registered lane hlane)
    exact hid ▸ List.mem_map_of_mem hb
  rw [pendingEdges, List.length_flatMap, sum_map_owners Lane.batch _ hnodup hmem, List.map_map]
  rfl

/-! ### The other operations -/

theorem length_batchEdges (batch : Nat) (reference : Time) (pair : Nat) (requests : List Request) :
    (batchEdges batch reference pair requests).length = 2 * requests.length := by
  induction requests generalizing pair with
  | nil => rfl
  | cons r rest ih =>
      rw [batchEdges, List.length_append, ih, edgesOf_eq, List.length_cons]
      simp
      omega

/-- The lanes of a batch hold all its edges. -/
theorem length_newLanes (batch pair : Nat) (reference : Time) (requests : List Request) :
    ((newLanes batch reference pair requests).flatMap Lane.edges).length = 2 * requests.length := by
  have hkeys : ∀ e ∈ batchEdges batch reference pair requests,
      e.key ∈ keysOf (batchEdges batch reference pair requests) :=
    fun e he => mem_keysOf.mpr ⟨e, he, rfl⟩
  have hsum := sum_map_owners Edge.key (fun _ => 1) (nodup_keysOf _) hkeys
  rw [List.map_const', List.sum_replicate_nat, Nat.mul_one, length_batchEdges] at hsum
  rw [hsum, List.length_flatMap, newLanes, List.map_map]
  congr 1
  refine List.map_congr_left fun key _ => ?_
  rw [Function.comp_apply, laneOf_edges, List.length_mergeSort, List.map_const',
    List.sum_replicate_nat, Nat.mul_one]

theorem lanesOf_schedule (s : Scheduler) (requests : List Request) (reference : Time) (id : Nat) :
    (s.schedule requests reference).1.lanesOf id = s.lanesOf id ++
      if s.nextBatch = id then newLanes s.nextBatch reference s.nextPair requests else [] := by
  rw [lanesOf, schedule_lanes, List.filter_append, lanesOf]
  congr 1
  split
  · rename_i hid
    rw [List.filter_eq_self]
    intro lane hlane
    rw [(mem_newLanes hlane).1, hid, BEq.rfl]
  · rename_i hid
    rw [List.filter_eq_nil_iff]
    intro lane hlane
    rw [(mem_newLanes hlane).1]
    simpa using hid

theorem Orderly.lanesOf_eq_nil (h : s.Orderly) {id : Nat} (hid : ¬s.isActive id) :
    s.lanesOf id = [] := by
  rw [lanesOf, List.filter_eq_nil_iff]
  intro lane hlane hbatch
  exact hid (beq_iff_eq.mp hbatch ▸ h.registered lane hlane)

/-- A batch begins with all its edges in their lanes. -/
theorem Orderly.lanesOf_schedule_new (h : s.Orderly) (requests : List Request) (reference : Time) :
    (s.schedule requests reference).1.edgesLeft s.nextBatch = 2 * requests.length ∧
      (s.schedule requests reference).1.owed s.nextBatch = 0 := by
  have hfresh : s.lanesOf s.nextBatch = [] :=
    h.lanesOf_eq_nil fun hactive => Nat.lt_irrefl _ (h.lt_of_isActive hactive)
  rw [edgesLeft, owed, lanesOf_schedule, hfresh, if_pos rfl, List.nil_append]
  constructor
  · rw [← length_newLanes, List.length_flatMap]
  · refine List.sum_eq_zero_iff_forall_eq_nat.mpr fun n hn => ?_
    obtain ⟨lane, hlane, rfl⟩ := List.mem_map.mp hn
    rw [(mem_newLanes hlane).2.1]
    rfl

end Scheduler

end CrowdPad
