import CrowdPad.Proofs.Timeline.Pair
import Mathlib

/-! Edges in pairs. Of every pair the press comes first, and each of its edges comes once. What a
scheduler hands over comes in pairs. -/

namespace CrowdPad

/-- Whether of every pair there is nothing, its press, or its press and then its release. -/
def InPairs (edges : List Edge) : Prop :=
  ∀ pair, (edges.filter (Edge.inPair pair)).map (·.transition) <+: [.press, .release]

namespace InPairs

variable {edges : List Edge}

theorem of_front {whole : List Edge} (h : InPairs whole) (hfront : edges <+: whole) :
    InPairs edges := fun pair => ((hfront.filter _).map _).trans (h pair)

/-- What stands before an edge of the same pair is a press, and the edge its release. -/
theorem of_earlier {rest : List Edge} {e earlier : Edge} (h : InPairs (edges ++ e :: rest))
    (hearlier : earlier ∈ edges) (hpair : earlier.pair = e.pair) :
    earlier.transition = .press ∧ e.transition = .release := by
  obtain ⟨more, hmore⟩ := h e.pair
  have hself : Edge.inPair e.pair e := beq_self_eq_true e.pair
  rw [List.filter_append, List.filter_cons_of_pos hself, List.map_append, List.map_cons,
    List.append_assoc] at hmore
  have hmem : earlier.transition ∈ (edges.filter (Edge.inPair e.pair)).map (·.transition) :=
    List.mem_map_of_mem (List.mem_filter.mpr ⟨hearlier, beq_iff_eq.mpr hpair⟩)
  generalize (edges.filter (Edge.inPair e.pair)).map (·.transition) = before at hmore hmem
  match before, hmore, hmem with
  | [t], hmore, hmem =>
      simp only [List.cons_append, List.nil_append, List.cons.injEq] at hmore
      exact ⟨(List.mem_singleton.mp hmem).trans hmore.1, hmore.2.1⟩
  | _ :: _ :: _, hmore, _ =>
      have hlength := congrArg List.length hmore
      simp only [List.length_append, List.length_cons] at hlength
      simp at hlength
      omega

theorem nodup (h : InPairs edges) : edges.Nodup := by
  rw [List.nodup_iff_sublist]
  intro e htwice
  have htwice' := ((htwice.filter (Edge.inPair e.pair)).map (·.transition)).trans (h e.pair).sublist
  have hself : Edge.inPair e.pair e := beq_self_eq_true e.pair
  rw [List.filter_cons_of_pos hself, List.filter_cons_of_pos hself, List.filter_nil] at htwice'
  simp only [List.map_cons, List.map_nil] at htwice'
  revert htwice'
  cases e.transition <;> decide

end InPairs

namespace Timeline

variable {t : Timeline}

theorem nextPair_step {σ : Step} (hσ : ∀ requests reference, σ ≠ .schedule requests reference) :
    (t.step σ).scheduler.nextPair = t.scheduler.nextPair := by
  apply step_keeps (P := fun u => u.scheduler.nextPair = t.scheduler.nextPair) σ rfl
  · exact fun requests reference heq => absurd heq (hσ requests reference)
  · exact fun _ => rfl
  · exact fun _ => rfl
  · exact fun _ h => h
  · exact fun _ h => h

/-- Whether every pair that was numbered belongs to a request that was scheduled. -/
def AllBorne (t : Timeline) : Prop :=
  ∀ pair < t.scheduler.nextPair, ∃ press release start,
    press.pair = pair ∧ t.Bears press release start

theorem AllBorne.step (hborne : t.AllBorne) (h : t.Lawful) (σ : Step) : (t.step σ).AllBorne := by
  have hold : ∀ pair < t.scheduler.nextPair, ∃ press release start,
      press.pair = pair ∧ (t.step σ).Bears press release start := by
    intro pair hpair
    obtain ⟨press, release, start, hpress, hbears⟩ := hborne pair hpair
    exact ⟨press, release, start, hpress, hbears.step h σ⟩
  intro pair hpair
  by_cases hlt : pair < t.scheduler.nextPair
  · exact hold pair hlt
  · cases σ with
    | schedule requests reference =>
        obtain ⟨i, rfl⟩ := Nat.exists_eq_add_of_le (Nat.le_of_not_lt hlt)
        have hi : i < requests.length := Nat.lt_of_add_lt_add_left hpair
        exact ⟨_, _, _, rfl, h.bears_schedule requests reference hi⟩
    | cancel | cancelAll | reach | advance | stopWorker =>
        rw [nextPair_step (fun _ _ => Step.noConfusion)] at hpair
        exact absurd hpair hlt

/-- What leaves a scheduler comes in pairs. -/
theorem inPairs_departures (steps : List Step) :
    InPairs ((run {} steps).departures.map (·.edge)) := by
  have hlawful : (run {} steps).Lawful := lawful_empty.run steps
  have hborne : (run {} steps).AllBorne :=
    lawful_empty.run_keeps (fun _ => True) (fun _ _ => trivial)
      (fun _ σ h _ hborne => hborne.step h σ) fun pair hpair => absurd hpair (Nat.not_lt_zero _)
  intro pair
  rw [← departed]
  by_cases hpair : pair < (run {} steps).scheduler.nextPair
  · obtain ⟨press, release, start, rfl, hbears⟩ := hborne pair hpair
    have hfront : (run {} steps).departed (Edge.inPair press.pair) <+:
        (run {} steps).course (Edge.inPair press.pair) := List.prefix_append _ _
    rcases hbears.whole with hboth | hneither
    · rw [hboth] at hfront
      have htransitions := hfront.map (·.transition)
      rwa [List.map_cons, List.map_singleton, hbears.twins.down, hbears.twins.up] at htransitions
    · rw [hneither, List.prefix_nil] at hfront
      rw [hfront]
      exact List.nil_prefix
  · rw [hlawful.departed_of_le (Nat.le_of_not_lt hpair)]
    exact List.nil_prefix

end Timeline

end CrowdPad
