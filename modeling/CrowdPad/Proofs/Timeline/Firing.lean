import CrowdPad.Proofs.Timeline.Pair
import Mathlib

/-! What a worker gets. A worker that is not stopped takes the press of a request before its release
and never a press alone; a batch that nobody cancels gets both edges of every request to it, each at
its own moment. -/

namespace CrowdPad.Timeline

variable {t : Timeline}

/-- The edges of a pair that the worker took, in the order in which it took them. -/
def handed (t : Timeline) (pair : Nat) : List Edge :=
  (t.departures.filter fun d => d.taken && d.edge.inPair pair).map (·.edge)

theorem Taking.handed_eq (h : t.Taking) (pair : Nat) :
    t.handed pair = t.departed (Edge.inPair pair) := by
  rw [handed, departed_eq_map]
  congr 1
  refine List.filter_congr fun d hd => ?_
  rw [h.taken d hd, Bool.true_and]

/-! ### Releases -/

/-- Once the press of a request has left its lane, its release leaves when it is due. -/
theorem Bears.release_mem_departed {press release : Edge} {start : Time}
    (hbears : t.Bears press release start) (h : t.Lawful)
    (hpress : press ∈ t.departed (Edge.inPair press.pair)) (more : List Step) (ms : Nat)
    (hdue : release.fireAt ≤ (t.run more).now + ms) :
    release ∈ ((t.run more).step (.advance ms)).departed (Edge.inPair press.pair) := by
  have hkindred := Scheduler.kindred_inPair press.pair
  have hcourse := hbears.course_of_mem_departed hpress
  have hlater : ((t.run more).step (.advance ms)).course (Edge.inPair press.pair) =
      [press, release] := by
    have hdecided := hbears.course_run_of_decided h (more ++ [.advance ms])
      (Or.inl (List.ne_nil_of_mem hpress))
    rwa [run_concat, hcourse] at hdecided
  rw [(hbears.run h more).follows.departed_advance (h.run more) hkindred, hlater, List.mem_filter]
  exact ⟨List.mem_cons_of_mem _ (List.mem_singleton_self _), decide_eq_true hdue⟩

/-- **Release.** Whatever is scheduled and cancelled, a worker that is not stopped takes of each
request nothing, the press, or the press and then the release. Once it has taken the press it takes
the release as soon as that is due, and of a batch that is over it has taken all or nothing of each
request. -/
theorem release_handed_behind_press (before after : List Step) (requests : List Request)
    (reference : Time) (hbefore : Step.stopWorker ∉ before) (hafter : Step.stopWorker ∉ after)
    {i : Nat} (hi : i < requests.length) :
    let start := run {} before
    let batch := start.scheduler.nextBatch
    let pair := start.scheduler.nextPair + i
    let press := requests[i].pressEdge batch pair reference
    let release := requests[i].releaseEdge batch pair reference
    let t := (start.step (.schedule requests reference)).run after
    t.handed pair <+: [press, release] ∧
      (press ∈ t.handed pair → ∀ (more : List Step) (ms : Nat), Step.stopWorker ∉ more →
        release.fireAt ≤ (t.run more).now + ms →
          release ∈ ((t.run more).step (.advance ms)).handed pair) ∧
      (t.scheduler.isActive batch = false →
        t.handed pair = [] ∨ t.handed pair = [press, release]) := by
  intro start batch pair press release t
  have hstart : start.Lawful := lawful_empty.run before
  have hscheduled : (start.step (.schedule requests reference)).Lawful := hstart.step _
  have hlawful : t.Lawful := hscheduled.run after
  have hbears : t.Bears press release start.now :=
    (hstart.bears_schedule requests reference hi).run hscheduled after
  have htaking : t.Taking :=
    ((taking_empty.run hbefore).step (Step.noConfusion)).run hafter
  have hwhole : t.course (Edge.inPair pair) = [press, release] ∨ t.course (Edge.inPair pair) = [] :=
    hbears.whole
  refine ⟨?_, ?_, ?_⟩
  · have hfront : t.departed (Edge.inPair pair) <+: t.course (Edge.inPair pair) :=
      List.prefix_append _ _
    rw [htaking.handed_eq]
    rcases hwhole with hboth | hneither
    · rwa [hboth] at hfront
    · rw [hneither, List.prefix_nil] at hfront
      rw [hfront]
      exact List.nil_prefix
  · intro hpress more ms hmore hdue
    rw [htaking.handed_eq] at hpress
    rw [((htaking.run hmore).step Step.noConfusion).handed_eq]
    exact hbears.release_mem_departed hlawful hpress more ms hdue
  · intro hover
    have hdone : t.course (Edge.inPair pair) = t.departed (Edge.inPair pair) :=
      hbears.course_of_over hlawful hover
    rw [htaking.handed_eq, ← hdone]
    exact hwhole.symm

/-- A short push of a key, 5 ms behind the reference time. -/
def tap : Request where
  verb := { name := "jump", key := "a", defaultMs := 50 }
  delayMs := 5
  durationMs := 50

/-- A tap that is cancelled twice while its key is down. -/
theorem release_handed_behind_cancelled_tap :
    tap.releaseEdge 1 0 0 ∈ (run {} [.schedule [tap] 0, .advance 10, .cancelAll, .cancel 1,
      .advance 45]).handed 0 :=
  (release_handed_behind_press [] [.advance 10, .cancelAll] [tap] 0 (by decide) (by decide)
    (i := 0) (by decide)).2.1 (by cbv; exact List.Mem.head _) [.cancel 1] 45 (by decide)
    (by decide)

/-! ### Batches that nobody cancels -/

section Schedule

variable (h : t.Lawful) (requests : List Request) (reference : Time) (steps : List Step)

include h

theorem Lawful.follows_schedule_key (key : String) :
    ((t.step (.schedule requests reference)).run steps).Follows
      (fun e => e.batch == t.scheduler.nextBatch && e.key == key)
      ((t.step (.schedule requests reference)).scheduler.edgesWhere
        fun e => e.batch == t.scheduler.nextBatch && e.key == key) t.now := by
  have hscheduled : (t.step (.schedule requests reference)).Lawful := h.step _
  refine Follows.run ?_ hscheduled (Scheduler.kindred_key t.scheduler.nextBatch key) steps
  apply follows_of_waiting (t := t.step (.schedule requests reference))
  · intro e he
    rw [Bool.and_eq_true, beq_iff_eq] at he
    exact Or.inl (Nat.lt_succ_of_le (Nat.le_of_eq he.1))
  · intro d hd he
    have hlt := (h.numbered d hd).1
    rw [Bool.and_eq_true, beq_iff_eq] at he
    omega

/-- On one key the edges of a batch leave in the order of time, request and direction. -/
theorem Lawful.departed_key_pairwise (key : String) :
    (((t.step (.schedule requests reference)).run steps).departed
      fun e => e.batch == t.scheduler.nextBatch && e.key == key).Pairwise Edge.Before := by
  obtain ⟨gone, horigin, hdeparted⟩ := (h.follows_schedule_key requests reference steps key).split
  have horder := h.orderly.edgesWhere_schedule_key requests reference key
  exact horder.sublist (hdeparted.trans (horigin ▸ List.sublist_append_left gone _))

/-- Of a batch nothing leaves but the edges of its requests. -/
theorem Lawful.edge_of_request {d : Departure}
    (hd : d ∈ ((t.step (.schedule requests reference)).run steps).departures)
    (hbatch : d.edge.batch = t.scheduler.nextBatch) :
    ∃ i, ∃ hi : i < requests.length,
      d.edge = requests[i].pressEdge t.scheduler.nextBatch (t.scheduler.nextPair + i) reference ∨
      d.edge =
        requests[i].releaseEdge t.scheduler.nextBatch (t.scheduler.nextPair + i) reference := by
  obtain ⟨gone, horigin, hdeparted⟩ :=
    (h.follows_schedule_key requests reference steps d.edge.key).split
  have hmem : d.edge ∈ ((t.step (.schedule requests reference)).run steps).departed
      fun e => e.batch == t.scheduler.nextBatch && e.key == d.edge.key := by
    rw [mem_departed, hbatch, BEq.rfl, BEq.rfl]
    exact ⟨⟨d, hd, rfl⟩, rfl⟩
  have hwhere : d.edge ∈ (t.step (.schedule requests reference)).scheduler.edgesWhere
      fun e => e.batch == t.scheduler.nextBatch && e.key == d.edge.key := by
    rw [← horigin]
    exact List.mem_append_left _ (hdeparted.subset hmem)
  obtain ⟨⟨lane, hlane, he⟩, -⟩ := mem_edgesWhere.mp hwhere
  have hedge := h.orderly.mem_batchEdges_of_schedule hlane he hbatch
  obtain ⟨i, hi, hpair⟩ := Scheduler.mem_batchEdges.mp hedge
  exact ⟨i, hi, List.mem_pair.mp hpair⟩

/-- Of a request of a batch that nobody cancels, what is due has left, each edge at its moment. -/
theorem Lawful.departures_of_uncancelled {i : Nat} (hi : i < requests.length) (ms : Nat)
    (huncancelled : ∀ σ ∈ steps, σ.covers t.scheduler.nextBatch = false)
    (htaking : (((t.step (.schedule requests reference)).run steps).step (.advance ms)).Taking) :
    ((((t.step (.schedule requests reference)).run steps).step (.advance ms)).departures.filter
        fun d => d.edge.inPair (t.scheduler.nextPair + i)) =
      ([requests[i].pressEdge t.scheduler.nextBatch (t.scheduler.nextPair + i) reference,
        requests[i].releaseEdge t.scheduler.nextBatch (t.scheduler.nextPair + i) reference].filter
          fun e => e.fireAt ≤ ((t.step (.schedule requests reference)).run steps).now + ms).map
          fun edge => { time := max t.now edge.fireAt, edge, taken := true } := by
  have hscheduled : (t.step (.schedule requests reference)).Lawful := h.step _
  have hrun := hscheduled.run steps
  have hbears := h.bears_schedule requests reference hi
  have hsteps : ∀ σ ∈ steps ++ [Step.advance ms], σ.covers t.scheduler.nextBatch = false := by
    intro σ hσ
    rcases List.mem_append.mp hσ with hmem | hlast
    · exact huncancelled σ hmem
    · rw [List.mem_singleton.mp hlast]
      rfl
  have hcourse : (((t.step (.schedule requests reference)).run steps).step (.advance ms)).course
      (Edge.inPair (t.scheduler.nextPair + i)) = _ :=
    (run_concat _ steps (.advance ms) ▸ hbears.course_run_of_uncancelled hscheduled hsteps).trans
      (h.course_schedule requests reference hi)
  rw [← hcourse]
  exact (hbears.run hscheduled steps).follows.departures_advance hrun
    (Scheduler.kindred_inPair _) ms htaking

end Schedule

/-- **Firing.** A batch that nobody cancels has handed over of each request what is due, the press and
the release each at its own moment, or at the moment of scheduling where its own had passed; it hands
over nothing else, and on each key in the order of time, request and direction. -/
theorem uncancelled_departures (before after : List Step) (requests : List Request)
    (reference : Time) (ms : Nat) (hbefore : Step.stopWorker ∉ before)
    (hafter : Step.stopWorker ∉ after)
    (huncancelled : ∀ σ ∈ after, σ.covers (run {} before).scheduler.nextBatch = false) :
    let start := run {} before
    let batch := start.scheduler.nextBatch
    let press (i : Nat) (r : Request) := r.pressEdge batch (start.scheduler.nextPair + i) reference
    let release (i : Nat) (r : Request) :=
      r.releaseEdge batch (start.scheduler.nextPair + i) reference
    let t := ((start.step (.schedule requests reference)).run after).step (.advance ms)
    (∀ i, ∀ hi : i < requests.length,
      (t.departures.filter fun d => d.edge.inPair (start.scheduler.nextPair + i)) =
        ([press i requests[i], release i requests[i]].filter fun e => e.fireAt ≤ t.now).map
          fun edge => { time := max start.now edge.fireAt, edge, taken := true }) ∧
      (∀ d ∈ t.departures, d.edge.batch = batch → ∃ i, ∃ hi : i < requests.length,
        d.edge = press i requests[i] ∨ d.edge = release i requests[i]) ∧
      ∀ key, (t.departed fun e => e.batch == batch && e.key == key).Pairwise Edge.Before := by
  intro start batch press release t
  have hstart : start.Lawful := lawful_empty.run before
  have htaking : t.Taking :=
    (((taking_empty.run hbefore).step Step.noConfusion).run hafter).step Step.noConfusion
  have hrun : t = (start.step (.schedule requests reference)).run (after ++ [.advance ms]) :=
    (run_concat _ after (.advance ms)).symm
  refine ⟨?_, ?_, ?_⟩
  · intro i hi
    exact hstart.departures_of_uncancelled requests reference after hi ms huncancelled htaking
  · intro d hd hbatch
    rw [hrun] at hd
    exact hstart.edge_of_request requests reference _ hd hbatch
  · intro key
    rw [hrun]
    exact hstart.departed_key_pairwise requests reference _ key

/-- Of two taps whose time had passed the presses leave at once. -/
theorem uncancelled_departures_of_taps :
    ((run {} [.schedule [tap, tap] (-10), .advance 10]).departures.filter
      fun d => d.edge.inPair 1) =
        [{ time := 0, edge := tap.pressEdge 1 1 (-10), taken := true }] :=
  ((uncancelled_departures [] [] [tap, tap] (-10) 10 (by decide) (by decide) (by decide)).1 1
    (by decide)).trans (by cbv)

end CrowdPad.Timeline
