import CrowdPad.Proofs.Orders
import CrowdPad.Proofs.Timeline.Firing

/-! How long keys are held. The bound that every request of a message keeps is a bound on the time
between its press and its release, on any timeline on which the message is scheduled. -/

namespace CrowdPad.Timeline

variable {t : Timeline} {r : Request} {batch pair : Nat} {reference start : Time}

/-- The moments at which the edges of a bounded request leave are no further apart than the ceiling of
its verb. -/
theorem Bears.times_within_ceiling (hbounded : r.Bounded)
    (hbears : t.Bears (r.pressEdge batch pair reference) (r.releaseEdge batch pair reference) start)
    {down up : Departure} (hdown : down ∈ t.departures) (hup : up ∈ t.departures)
    (hpress : down.edge = r.pressEdge batch pair reference)
    (hrelease : up.edge = r.releaseEdge batch pair reference) :
    down.time ≤ up.time ∧ up.time ≤ down.time + r.verb.ceilingMs.toNat := by
  have hdownPair : down.edge.inPair pair := by
    rw [hpress]
    exact beq_self_eq_true pair
  have hupPair : up.edge.inPair pair := by
    rw [hrelease]
    exact beq_self_eq_true pair
  have hdownTime := hbears.follows.times down hdown hdownPair
  have hupTime := hbears.follows.times up hup hupPair
  rw [hpress] at hdownTime
  rw [hrelease] at hupTime
  have hle := hbounded.releaseMs_le
  have horder := r.pressEdge_le_releaseEdge batch pair reference
  have hspan : (r.releaseEdge batch pair reference).fireAt ≤
      (r.pressEdge batch pair reference).fireAt + r.verb.ceilingMs.toNat := by
    simp only [Request.pressEdge, Request.releaseEdge]
    lia
  constructor
  · lia
  · lia

/-- Once a bounded request has held its key for the ceiling of its verb, it releases it. -/
theorem Bears.release_within_ceiling (hbounded : r.Bounded)
    (hbears : t.Bears (r.pressEdge batch pair reference) (r.releaseEdge batch pair reference) start)
    (h : t.Lawful) {down : Departure} (hdown : down ∈ t.departures)
    (hpress : down.edge = r.pressEdge batch pair reference) (more : List Step) (ms : Nat)
    (hceiling : down.time + r.verb.ceilingMs.toNat ≤ (t.run more).now + ms) :
    r.releaseEdge batch pair reference ∈
      ((t.run more).step (.advance ms)).departed (Edge.inPair pair) := by
  have hpair : down.edge.inPair pair := by
    rw [hpress]
    exact beq_self_eq_true pair
  have htime := hbears.follows.times down hdown hpair
  have hle := hbounded.releaseMs_le
  have hdeparted : r.pressEdge batch pair reference ∈ t.departed (Edge.inPair pair) := by
    rw [mem_departed, ← hpress]
    exact ⟨⟨down, hdown, rfl⟩, hpair⟩
  refine hbears.release_mem_departed h hdeparted more ms ?_
  rw [hpress] at htime
  simp only [Request.pressEdge] at htime
  simp only [Request.releaseEdge]
  lia

/-- **Ceiling.** Every request that a team takes from a message is one for a verb of its table, within
the bounds of this verb. Wherever the message is scheduled, and whatever else is scheduled and
cancelled, the key of each request is released no earlier than it is pressed, and it is released when
it has been held for the ceiling of the verb, if not before. -/
theorem held_within_ceiling (team : Team) (text : String) (before after : List Step)
    (reference : Time) :
    let requests := (team.ordersOf text).requests
    let start := run {} before
    let t := (start.step (.schedule requests reference)).run after
    (∀ r ∈ requests, r.Granted team.verbs) ∧
      ∀ i, ∀ hi : i < requests.length,
        let ceiling : Nat := requests[i].verb.ceilingMs.toNat
        let pair := start.scheduler.nextPair + i
        let press := requests[i].pressEdge start.scheduler.nextBatch pair reference
        let release := requests[i].releaseEdge start.scheduler.nextBatch pair reference
        ∀ down ∈ t.departures, down.edge = press →
          (∀ up ∈ t.departures, up.edge = release →
            down.time ≤ up.time ∧ up.time ≤ down.time + ceiling) ∧
          ∀ (more : List Step) (ms : Nat), down.time + ceiling ≤ (t.run more).now + ms →
            release ∈ ((t.run more).step (.advance ms)).departed (Edge.inPair pair) := by
  intro requests start t
  have hgranted : ∀ r ∈ requests, r.Granted team.verbs := fun _ hr => Team.granted_of_ordersOf hr
  have hstart : start.Lawful := lawful_empty.run before
  have hscheduled : (start.step (.schedule requests reference)).Lawful := hstart.step _
  refine ⟨hgranted, ?_⟩
  intro i hi ceiling pair press release down hdown hpress
  have hbounded := (hgranted requests[i] (List.getElem_mem hi)).bounded
  have hbears : t.Bears press release start.now :=
    (hstart.bears_schedule requests reference hi).run hscheduled after
  constructor
  · intro up hup hrelease
    exact hbears.times_within_ceiling hbounded hdown hup hpress hrelease
  · intro more ms hceiling
    exact hbears.release_within_ceiling hbounded (hscheduled.run after) hdown hpress more ms hceiling

end CrowdPad.Timeline
