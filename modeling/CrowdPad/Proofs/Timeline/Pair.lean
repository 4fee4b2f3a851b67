import CrowdPad.Proofs.Timeline.Course

/-! The course of one request. From the moment at which it is scheduled, its press and its release
are both to come or have both been handed over, unless a cancellation takes away the two of them
while the press is still in its lane. -/

namespace CrowdPad.Timeline

variable {t : Timeline} {press release : Edge} {start : Time}

/-- A request that was scheduled, and what became of it: both of its edges leave their lane in time,
or none does. -/
structure Bears (press release : Edge) (start : Time) (t : Timeline) : Prop where
  twins : press.Twins release
  follows : t.Follows (Edge.inPair press.pair) [press, release] start
  whole : t.course (Edge.inPair press.pair) = [press, release] ∨
    t.course (Edge.inPair press.pair) = []

/-! ### Scheduling -/

theorem Lawful.departed_of_le (h : t.Lawful) {pair : Nat} (hpair : t.scheduler.nextPair ≤ pair) :
    t.departed (Edge.inPair pair) = [] := by
  unfold departed
  rw [List.filter_eq_nil_iff]
  intro e he
  obtain ⟨d, hd, rfl⟩ := List.mem_map.mp he
  have hlt := (h.numbered d hd).2
  rw [Edge.inPair, beq_iff_eq]
  omega

section Schedule

variable (h : t.Lawful) (requests : List Request) (reference : Time) {i : Nat}
  (hi : i < requests.length)

include h

theorem Lawful.course_schedule :
    (t.step (.schedule requests reference)).course (Edge.inPair (t.scheduler.nextPair + i)) =
      [requests[i].pressEdge t.scheduler.nextBatch (t.scheduler.nextPair + i) reference,
        requests[i].releaseEdge t.scheduler.nextBatch (t.scheduler.nextPair + i) reference] := by
  have hnone : (t.step (.schedule requests reference)).departed
      (Edge.inPair (t.scheduler.nextPair + i)) = [] := h.departed_of_le (Nat.le_add_right _ i)
  rw [course, hnone, List.nil_append]
  exact h.orderly.plannedWhere_schedule_inPair requests reference hi

/-- Every request of a batch is borne from the moment at which it is scheduled. -/
theorem Lawful.bears_schedule : (t.step (.schedule requests reference)).Bears
    (requests[i].pressEdge t.scheduler.nextBatch (t.scheduler.nextPair + i) reference)
    (requests[i].releaseEdge t.scheduler.nextBatch (t.scheduler.nextPair + i) reference) t.now where
  twins := requests[i].twins t.scheduler.nextBatch (t.scheduler.nextPair + i) reference
  whole := Or.inl (h.course_schedule requests reference hi)
  follows := by
    rw [← h.orderly.edgesWhere_schedule_inPair requests reference hi]
    apply follows_of_waiting (t := t.step (.schedule requests reference))
    · intro e he
      have hpair : e.pair = t.scheduler.nextPair + i := beq_iff_eq.mp he
      have hnext : (t.step (.schedule requests reference)).scheduler.nextPair =
          t.scheduler.nextPair + requests.length := rfl
      exact Or.inr (by omega)
    · intro d hd he
      have hlt := (h.numbered d hd).2
      have hpair : d.edge.pair = t.scheduler.nextPair + i := beq_iff_eq.mp he
      omega

end Schedule

/-! ### Steps -/

theorem Follows.departed_of_waiting
    (hfollows : t.Follows (Edge.inPair press.pair) [press, release] start)
    (hwaiting : t.scheduler.edgesWhere (Edge.inPair press.pair) = [press, release]) :
    t.departed (Edge.inPair press.pair) = [] := by
  obtain ⟨gone, horigin, hdeparted⟩ := hfollows.split
  rw [hwaiting, List.append_left_eq_self] at horigin
  rw [horigin] at hdeparted
  exact List.sublist_nil.mp hdeparted

theorem Follows.suffix (hfollows : t.Follows (Edge.inPair press.pair) [press, release] start) :
    t.scheduler.edgesWhere (Edge.inPair press.pair) <:+ [press, release] := by
  obtain ⟨gone, horigin, -⟩ := hfollows.split
  exact ⟨gone, horigin⟩

section Bears

variable (hbears : t.Bears press release start) (h : t.Lawful)

include hbears h

theorem Bears.bearer_batch {lane : Lane}
    (hlane : lane ∈ t.scheduler.bearers (Edge.inPair press.pair)) : lane.batch = press.batch :=
  h.orderly.bearer_batch hbears.twins hbears.follows.suffix hlane

/-- A cancellation takes away a request whose press has not left its lane. -/
theorem Bears.course_cancelIf_of_covers {which : Nat → Bool} (hcovers : which press.batch)
    (hnone : t.departed (Edge.inPair press.pair) = []) :
    ({ t with scheduler := t.scheduler.cancelIf which } : Timeline).course
      (Edge.inPair press.pair) = [] := by
  show t.departed (Edge.inPair press.pair) ++
    (t.scheduler.cancelIf which).plannedWhere (Edge.inPair press.pair) = []
  rw [hnone, List.nil_append]
  by_cases hwaiting : t.scheduler.edgesWhere (Edge.inPair press.pair) = [press, release]
  · exact h.orderly.plannedWhere_cancelIf_of_waiting hbears.twins hcovers hwaiting
  · rw [h.orderly.plannedWhere_cancelIf_of_begun hbears.twins which hbears.follows.suffix hwaiting]
    rcases hbears.whole with hboth | hneither
    · rw [course, hnone, List.nil_append] at hboth
      have hsub := t.scheduler.plannedWhere_sublist (Edge.inPair press.pair)
      rw [hboth] at hsub
      have hlength := hbears.follows.suffix.length_le
      exact absurd (hsub.eq_of_length_le hlength).symm hwaiting
    · rwa [course, hnone, List.nil_append] at hneither

/-- A cancellation changes the course of a request only by taking it away, before its press has left
its lane. -/
theorem Bears.course_cancelIf (which : Nat → Bool) :
    ({ t with scheduler := t.scheduler.cancelIf which } : Timeline).course
        (Edge.inPair press.pair) = t.course (Edge.inPair press.pair) ∨
      which press.batch ∧ t.departed (Edge.inPair press.pair) = [] ∧
        ({ t with scheduler := t.scheduler.cancelIf which } : Timeline).course
          (Edge.inPair press.pair) = [] := by
  by_cases hcovers : which press.batch
  · by_cases hnone : t.departed (Edge.inPair press.pair) = []
    · exact Or.inr ⟨hcovers, hnone, hbears.course_cancelIf_of_covers h hcovers hnone⟩
    · refine Or.inl (congrArg (t.departed (Edge.inPair press.pair) ++ ·) ?_)
      refine h.orderly.plannedWhere_cancelIf_of_begun hbears.twins which hbears.follows.suffix ?_
      exact fun hwaiting => hnone (hbears.follows.departed_of_waiting hwaiting)
  · refine Or.inl (congrArg (t.departed (Edge.inPair press.pair) ++ ·) ?_)
    refine Scheduler.plannedWhere_cancelIf_of_not t.scheduler fun lane hlane => ?_
    rw [hbears.bearer_batch h hlane]
    exact eq_false_of_ne_true hcovers

/-- A step changes the course of a request only where a cancellation takes it away, before its press
has left its lane. -/
theorem Bears.course_step (σ : Step) :
    (t.step σ).course (Edge.inPair press.pair) = t.course (Edge.inPair press.pair) ∨
      σ.covers press.batch ∧ t.departed (Edge.inPair press.pair) = [] ∧
        (t.step σ).course (Edge.inPair press.pair) = [] := by
  by_cases hcovers : ∃ id, σ.covers id
  · rw [step_of_covers hcovers]
    exact hbears.course_cancelIf h σ.covers
  · left
    apply h.step_keeps (P := fun u => u.course (Edge.inPair press.pair) =
      t.course (Edge.inPair press.pair)) σ rfl
    · rintro requests reference -
      refine congrArg (t.departed (Edge.inPair press.pair) ++ ·) ?_
      exact Scheduler.plannedWhere_schedule t.scheduler requests reference
        (hbears.follows.not_mem_batchEdges requests reference)
    · exact fun hcancels => absurd hcancels hcovers
    · exact fun _ => rfl
    · exact fun u hu heq => (hu.course_settle (Scheduler.kindred_inPair _)).trans heq
    · exact fun _ _ _ heq => heq

theorem Bears.step (σ : Step) : (t.step σ).Bears press release start where
  twins := hbears.twins
  follows := hbears.follows.step h (Scheduler.kindred_inPair _) σ
  whole := by
    rcases hbears.course_step h σ with hsame | ⟨-, -, hnil⟩
    · rw [hsame]
      exact hbears.whole
    · exact Or.inr hnil

theorem Bears.run (steps : List Step) : (t.run steps).Bears press release start :=
  h.run_keeps (fun _ => True) (fun _ _ => trivial) (fun _ σ h _ hbears => hbears.step h σ) hbears

/-! ### Runs -/

/-- As long as no cancellation covers a batch, the course of its requests stays what it is. -/
theorem Bears.course_run_of_uncancelled {steps : List Step}
    (hsteps : ∀ σ ∈ steps, σ.covers press.batch = false) :
    (t.run steps).course (Edge.inPair press.pair) = t.course (Edge.inPair press.pair) := by
  refine (h.run_keeps (P := fun u => u.Bears press release start ∧
    u.course (Edge.inPair press.pair) = t.course (Edge.inPair press.pair)) _ hsteps ?_
    ⟨hbears, rfl⟩).2
  intro u σ hu hσ ⟨hbears, hcourse⟩
  refine ⟨hbears.step hu σ, ?_⟩
  rcases hbears.course_step hu σ with hsame | ⟨hcovers, -, -⟩
  · exact hsame.trans hcourse
  · rw [hσ] at hcovers
    exact absurd hcovers Bool.false_ne_true

/-- Once its press has left its lane, or a cancellation has taken it away, the course of a request is
decided. -/
theorem Bears.course_run_of_decided (steps : List Step)
    (hdecided : t.departed (Edge.inPair press.pair) ≠ [] ∨
      t.course (Edge.inPair press.pair) = []) :
    (t.run steps).course (Edge.inPair press.pair) = t.course (Edge.inPair press.pair) := by
  refine (h.run_keeps (P := fun u => u.Bears press release start ∧
    (u.departed (Edge.inPair press.pair) ≠ [] ∨ t.course (Edge.inPair press.pair) = []) ∧
    u.course (Edge.inPair press.pair) = t.course (Edge.inPair press.pair)) (fun _ => True)
    (fun _ _ => trivial) ?_ ⟨hbears, hdecided, rfl⟩).2.2
  intro u σ hu _ ⟨hbears, hdecided, hcourse⟩
  refine ⟨hbears.step hu σ, ?_, ?_⟩
  · refine hdecided.imp_left fun hbegun hnone => hbegun ?_
    have hfront := u.departed_step σ (Edge.inPair press.pair)
    rw [hnone] at hfront
    exact List.prefix_nil.mp hfront
  · rcases hbears.course_step hu σ with hsame | ⟨-, hnone, hnil⟩
    · exact hsame.trans hcourse
    · rcases hdecided with hbegun | hgone
      · exact absurd hnone hbegun
      · exact hnil.trans hgone.symm

omit h in
theorem Bears.course_of_mem_departed (hpress : press ∈ t.departed (Edge.inPair press.pair)) :
    t.course (Edge.inPair press.pair) = [press, release] := by
  rcases hbears.whole with hboth | hneither
  · exact hboth
  · rw [course, List.append_eq_nil_iff] at hneither
    rw [hneither.1] at hpress
    exact absurd hpress List.not_mem_nil

omit h in
theorem Bears.departed_of_not_mem (hpress : press ∉ t.departed (Edge.inPair press.pair)) :
    t.departed (Edge.inPair press.pair) = [] := by
  have hfront : t.departed (Edge.inPair press.pair) <+: t.course (Edge.inPair press.pair) :=
    List.prefix_append _ _
  rcases hbears.whole with hboth | hneither
  · rw [hboth, List.prefix_cons_iff] at hfront
    rcases hfront with hnone | ⟨rest, hrest, -⟩
    · exact hnone
    · rw [hrest] at hpress
      exact absurd (List.mem_cons_self ..) hpress
  · rw [hneither] at hfront
    exact List.prefix_nil.mp hfront

/-- Behind a cancellation of its batch a request takes its course if its press had left its lane. -/
theorem Bears.course_run_of_covers {σ : Step} (hcovers : σ.covers press.batch)
    (steps : List Step) : ((t.step σ).run steps).course (Edge.inPair press.pair) =
      if press ∈ t.departed (Edge.inPair press.pair) then [press, release] else [] := by
  by_cases hpress : press ∈ t.departed (Edge.inPair press.pair)
  · have hdecided := hbears.course_run_of_decided h (σ :: steps)
      (Or.inl (List.ne_nil_of_mem hpress))
    rw [if_pos hpress, ← hbears.course_of_mem_departed hpress, ← hdecided, run_cons]
  · have hnil : (t.step σ).course (Edge.inPair press.pair) = [] := by
      rw [step_of_covers ⟨press.batch, hcovers⟩]
      exact hbears.course_cancelIf_of_covers h hcovers (hbears.departed_of_not_mem hpress)
    rw [if_neg hpress, ← hnil]
    exact (hbears.step h σ).course_run_of_decided (h.step σ) steps (Or.inr hnil)

/-- Nothing of a request is to come once its batch is over. -/
theorem Bears.course_of_over (hover : t.scheduler.isActive press.batch = false) :
    t.course (Edge.inPair press.pair) = t.departed (Edge.inPair press.pair) := by
  have hnone : t.scheduler.bearers (Edge.inPair press.pair) = [] := by
    rw [List.eq_nil_iff_forall_not_mem]
    intro lane hlane
    have hactive := h.orderly.registered lane (Scheduler.mem_bearers.mp hlane).1
    rw [hbears.bearer_batch h hlane, hover] at hactive
    exact Bool.false_ne_true hactive
  rw [course, Scheduler.plannedWhere, hnone, List.flatMap_nil, List.append_nil]

end Bears

end CrowdPad.Timeline
