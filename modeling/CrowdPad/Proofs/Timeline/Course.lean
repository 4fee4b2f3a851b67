import CrowdPad.Proofs.Scheduler.Pair
import CrowdPad.Proofs.Timeline.Basic

/-! The course of kindred edges through a run. Their lane only ever loses edges at its front, and
each edge that it hands over leaves at the moment at which it is due, or at once where that moment
had passed when the edges were scheduled. -/

namespace CrowdPad.Timeline

variable {t : Timeline} {q : Edge → Bool} {origin : List Edge} {start : Time}

/-- The edges that a condition picks out and that have left their lane. -/
def departed (t : Timeline) (q : Edge → Bool) : List Edge := (t.departures.map (·.edge)).filter q

/-- The edges that a condition picks out and that have left their lane or come to leave it. -/
def course (t : Timeline) (q : Edge → Bool) : List Edge :=
  t.departed q ++ t.scheduler.plannedWhere q

/-- Edges that stood in one lane when they were scheduled, and what became of them. -/
structure Follows (q : Edge → Bool) (origin : List Edge) (start : Time) (t : Timeline) : Prop where
  numbered : ∀ e, q e → e.batch < t.scheduler.nextBatch ∨ e.pair < t.scheduler.nextPair
  split : ∃ gone, gone ++ t.scheduler.edgesWhere q = origin ∧ (t.departed q).Sublist gone
  begun : start ≤ t.now
  times : ∀ d ∈ t.departures, q d.edge → d.time = max start d.edge.fireAt
  upcoming : t.now = start ∨ ∀ e ∈ t.scheduler.edgesWhere q, t.now ≤ e.fireAt

theorem mem_edgesWhere {s : Scheduler} {e : Edge} :
    e ∈ s.edgesWhere q ↔ (∃ lane ∈ s.lanes, e ∈ lane.edges) ∧ q e := by
  rw [Scheduler.edgesWhere_eq, List.mem_filter, List.mem_flatMap]

theorem mem_departed {e : Edge} : e ∈ t.departed q ↔ (∃ d ∈ t.departures, d.edge = e) ∧ q e := by
  rw [departed, List.mem_filter, List.mem_map]

/-- Edges of which none has left yet are followed from now on. -/
theorem follows_of_waiting
    (hnumbered : ∀ e, q e → e.batch < t.scheduler.nextBatch ∨ e.pair < t.scheduler.nextPair)
    (hwaiting : ∀ d ∈ t.departures, ¬q d.edge) :
    t.Follows q (t.scheduler.edgesWhere q) t.now where
  numbered := hnumbered
  split := by
    have hnone : t.departed q = [] := by
      rw [departed, List.filter_eq_nil_iff]
      intro e he
      obtain ⟨d, hd, rfl⟩ := List.mem_map.mp he
      exact hwaiting d hd
    exact ⟨[], rfl, hnone ▸ List.Sublist.refl []⟩
  begun := Int.le_refl _
  times := fun d hd hqd => absurd hqd (hwaiting d hd)
  upcoming := Or.inl rfl

/-! ### Settling -/

theorem departed_settle (t : Timeline) (q : Edge → Bool) :
    t.settle.departed q =
      t.departed q ++ (t.scheduler.tick t.now t.accepting).2.filter q := by
  have hedges : ((t.scheduler.tick t.now t.accepting).2.map fun edge =>
      ({ time := t.now, edge, taken := t.accepting } : Departure)).map (·.edge) =
      (t.scheduler.tick t.now t.accepting).2 := by
    rw [List.map_map]
    exact List.map_id _
  rw [departed, settle, settleAt]
  simp only [List.map_append, hedges, List.filter_append]
  rfl

theorem Lawful.lt_of_mem_settle (h : t.Lawful) {e : Edge}
    (he : e ∈ t.settle.scheduler.edgesWhere q) : t.now < e.fireAt := by
  obtain ⟨⟨lane, hlane, hmem⟩, -⟩ := mem_edgesWhere.mp he
  exact h.orderly.lt_of_mem_tick t.now t.accepting hlane hmem

theorem Lawful.course_settle (h : t.Lawful) (hq : Scheduler.Kindred q) :
    t.settle.course q = t.course q := by
  rw [course, departed_settle, List.append_assoc, course]
  congr 1
  rw [Timeline.settle, settleAt_scheduler, Scheduler.plannedWhere_retire]
  exact h.orderly.tick_append_plannedWhere hq t.now t.accepting

theorem Follows.settle (hfollows : t.Follows q origin start) (h : t.Lawful)
    (hq : Scheduler.Kindred q) : t.settle.Follows q origin start where
  numbered := hfollows.numbered
  split := by
    obtain ⟨gone, horigin, hdeparted⟩ := hfollows.split
    obtain ⟨front, hfront, hhanded⟩ :=
      h.orderly.tick_split_edgesWhere hq t.now t.accepting
    refine ⟨gone ++ front, ?_, ?_⟩
    · rw [List.append_assoc, ← horigin, ← hfront]
      rfl
    · rw [departed_settle]
      exact hdeparted.append hhanded
  begun := hfollows.begun
  times := by
    intro d hd hqd
    rcases mem_settle_departures.mp hd with hold | ⟨e, he, rfl⟩
    · exact hfollows.times d hold hqd
    · have hdue := Scheduler.le_of_mem_tick _ _ he
      have hbegun := hfollows.begun
      show t.now = max start e.fireAt
      rcases hfollows.upcoming with hnow | hlate
      · lia
      · have := hlate e (mem_edgesWhere.mpr ⟨Scheduler.mem_lane_of_mem_tick _ _ he, hqd⟩)
        lia
  upcoming := Or.inr fun _ he => Int.le_of_lt (h.lt_of_mem_settle he)

theorem Follows.settle_later (hfollows : t.Follows q origin start) (h : t.Lawful)
    (hq : Scheduler.Kindred q) : t.settle.later.Follows q origin start where
  numbered := hfollows.numbered
  split := (hfollows.settle h hq).split
  begun := Int.le_trans hfollows.begun (Int.le_of_lt (Int.lt_succ _))
  times := (hfollows.settle h hq).times
  upcoming := Or.inr fun _ he => Int.add_one_le_of_lt (h.lt_of_mem_settle he)

/-! ### Steps -/

theorem Follows.not_mem_batchEdges (hfollows : t.Follows q origin start) (requests : List Request)
    (reference : Time) : ∀ e ∈ Scheduler.batchEdges t.scheduler.nextBatch reference
      t.scheduler.nextPair requests, ¬q e := by
  intro e he hqe
  obtain ⟨hbatch, hpair, -⟩ := Scheduler.of_mem_batchEdges he
  rcases hfollows.numbered e hqe with hlt | hlt
  · omega
  · omega

theorem Follows.step (hfollows : t.Follows q origin start) (h : t.Lawful)
    (hq : Scheduler.Kindred q) (σ : Step) : (t.step σ).Follows q origin start := by
  apply h.step_keeps σ hfollows
  · rintro requests reference -
    have hsame := Scheduler.edgesWhere_schedule t.scheduler requests reference
      (hfollows.not_mem_batchEdges requests reference)
    refine ⟨?_, ?_, hfollows.begun, hfollows.times, ?_⟩
    · intro e hqe
      rcases hfollows.numbered e hqe with hbatch | hpair
      · exact Or.inl (Nat.lt_succ_of_lt hbatch)
      · exact Or.inr (Nat.lt_add_right _ hpair)
    · rw [hsame]
      exact hfollows.split
    · rw [hsame]
      exact hfollows.upcoming
  · rintro -
    exact ⟨hfollows.numbered, hfollows.split, hfollows.begun, hfollows.times, hfollows.upcoming⟩
  · rintro -
    exact ⟨hfollows.numbered, hfollows.split, hfollows.begun, hfollows.times, hfollows.upcoming⟩
  · exact fun t h hfollows => hfollows.settle h hq
  · exact fun t h hfollows _ => hfollows.settle_later h hq

theorem Follows.run (hfollows : t.Follows q origin start) (h : t.Lawful)
    (hq : Scheduler.Kindred q) (steps : List Step) : (t.run steps).Follows q origin start :=
  h.run_keeps (fun _ => True) (fun _ _ => trivial)
    (fun _ σ h _ hfollows => hfollows.step h hq σ) hfollows

/-! ### What has left, and when -/

theorem departed_eq_map (t : Timeline) (q : Edge → Bool) :
    t.departed q = (t.departures.filter fun d => q d.edge).map (·.edge) := by
  rw [departed, List.filter_map]
  rfl

theorem departed_step (t : Timeline) (σ : Step) (q : Edge → Bool) :
    t.departed q <+: (t.step σ).departed q :=
  ((departures_step t σ).map _).filter q

/-- The moments at which edges have left follow from the edges. -/
theorem Follows.stamps (hfollows : t.Follows q origin start) :
    (t.departures.filter fun d => q d.edge).map (fun d => (d.time, d.edge)) =
      (t.departed q).map fun e => (max start e.fireAt, e) := by
  rw [departed_eq_map, List.map_map]
  refine List.map_congr_left fun d hd => ?_
  obtain ⟨hmem, hqd⟩ := List.mem_filter.mp hd
  rw [Function.comp_apply, hfollows.times d hmem hqd]

theorem Follows.departures_eq (hfollows : t.Follows q origin start) (htaking : t.Taking) :
    (t.departures.filter fun d => q d.edge) = (t.departed q).map fun edge =>
      { time := max start edge.fireAt, edge, taken := true } := by
  rw [departed_eq_map, List.map_map]
  refine (List.map_id _).symm.trans (List.map_congr_left fun d hd => ?_)
  obtain ⟨hmem, hqd⟩ := List.mem_filter.mp hd
  have htime := hfollows.times d hmem hqd
  have htaken := htaking.taken d hmem
  rw [Function.comp_apply, ← htime, ← htaken]
  rfl

theorem Follows.le_now (hfollows : t.Follows q origin start) (h : t.Lawful) {e : Edge}
    (he : e ∈ t.departed q) : e.fireAt ≤ t.now := by
  obtain ⟨⟨d, hd, rfl⟩, hqd⟩ := mem_departed.mp he
  have htime := hfollows.times d hd hqd
  have hpast := h.past d hd
  lia

/-- What has left a settled scheduler is what was due. -/
theorem Follows.departed_settle_eq (hfollows : t.Follows q origin start) (h : t.Lawful)
    (hq : Scheduler.Kindred q) : t.settle.departed q =
      (t.settle.course q).filter fun e => e.fireAt ≤ t.now := by
  have hleft : (t.settle.departed q).filter (fun e => e.fireAt ≤ t.now) =
      t.settle.departed q := by
    rw [List.filter_eq_self]
    exact fun e he => decide_eq_true ((hfollows.settle h hq).le_now h.settle he)
  have hplanned : (t.settle.scheduler.plannedWhere q).filter (fun e => e.fireAt ≤ t.now) = [] := by
    rw [List.filter_eq_nil_iff]
    intro e he
    have := h.lt_of_mem_settle ((t.settle.scheduler.plannedWhere_sublist q).subset he)
    rw [decide_eq_true_iff]
    lia
  rw [course, List.filter_append, hleft, hplanned, List.append_nil]

/-- Whenever the clock has been advanced, what has left is what was due. -/
theorem Follows.departed_advance (hfollows : t.Follows q origin start) (h : t.Lawful)
    (hq : Scheduler.Kindred q) (ms : Nat) : (t.step (.advance ms)).departed q =
      ((t.step (.advance ms)).course q).filter fun e => e.fireAt ≤ t.now + ms := by
  have hnow : (t.step (.reach ms)).now = t.now + ms := by
    rw [Timeline.step, Clock.wait_eq_everyMoment idles_settleAt]
  have hsettled : t.step (.advance ms) = (t.step (.reach ms)).settle := by
    rw [step_advance, step_reach]
  rw [hsettled, ← hnow]
  exact (hfollows.step h hq (.reach ms)).departed_settle_eq (h.step (.reach ms)) hq

theorem Follows.stamps_advance (hfollows : t.Follows q origin start) (h : t.Lawful)
    (hq : Scheduler.Kindred q) (ms : Nat) :
    ((t.step (.advance ms)).departures.filter fun d => q d.edge).map (fun d => (d.time, d.edge)) =
      (((t.step (.advance ms)).course q).filter fun e => e.fireAt ≤ t.now + ms).map
        fun e => (max start e.fireAt, e) := by
  rw [(hfollows.step h hq (.advance ms)).stamps, hfollows.departed_advance h hq ms]

theorem Follows.departures_advance (hfollows : t.Follows q origin start) (h : t.Lawful)
    (hq : Scheduler.Kindred q) (ms : Nat) (htaking : (t.step (.advance ms)).Taking) :
    ((t.step (.advance ms)).departures.filter fun d => q d.edge) =
      (((t.step (.advance ms)).course q).filter fun e => e.fireAt ≤ t.now + ms).map
        fun edge => { time := max start edge.fireAt, edge, taken := true } := by
  rw [(hfollows.step h hq (.advance ms)).departures_eq htaking, hfollows.departed_advance h hq ms]

end CrowdPad.Timeline
