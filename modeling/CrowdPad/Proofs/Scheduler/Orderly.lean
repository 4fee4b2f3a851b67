import CrowdPad.Proofs.Scheduler.Edges
import CrowdPad.Proofs.Scheduler.Tick

/-! What holds of a scheduler at all times: lanes are sorted and hold edges of their own batch only,
every lane belongs to a batch that is not over, and edges of one pair, or of one batch on one key,
stand in one lane. The last makes it possible to follow such edges through a run: there is at most
one lane that bears them. -/

namespace CrowdPad.Scheduler

/-- The invariant of a scheduler. -/
structure Orderly (s : Scheduler) : Prop where
  ne_nil : ∀ lane ∈ s.lanes, lane.edges ≠ []
  sorted : ∀ lane ∈ s.lanes, lane.edges.Pairwise fun e other => e.fireAt ≤ other.fireAt
  owned : ∀ lane ∈ s.lanes, ∀ e ∈ lane.edges, e.batch = lane.batch ∧ e.pair < s.nextPair
  registered : ∀ lane ∈ s.lanes, s.isActive lane.batch
  numbered : ∀ b ∈ s.batches, b.id < s.nextBatch
  apart : s.lanes.Pairwise fun lane other => ∀ e ∈ lane.edges, ∀ e' ∈ other.edges, ¬e.Kin e'

theorem orderly_empty : Orderly {} where
  ne_nil := fun _ h => absurd h List.not_mem_nil
  sorted := fun _ h => absurd h List.not_mem_nil
  owned := fun _ h => absurd h List.not_mem_nil
  registered := fun _ h => absurd h List.not_mem_nil
  numbered := fun _ h => absurd h List.not_mem_nil
  apart := List.Pairwise.nil

theorem isActive_iff {s : Scheduler} {id : Nat} : s.isActive id ↔ ∃ b ∈ s.batches, b.id = id := by
  simp only [isActive, List.any_eq_true, beq_iff_eq]

variable {s : Scheduler}

/-- Batches that are not over have numbers given out already. -/
theorem Orderly.lt_of_isActive (h : s.Orderly) {id : Nat} (hid : s.isActive id) :
    id < s.nextBatch := by
  obtain ⟨b, hb, rfl⟩ := isActive_iff.mp hid
  exact h.numbered b hb

/-! ### Every operation keeps the invariant -/

/-- Orderliness depends on the lanes and on the numbers of the batches. -/
theorem Orderly.congr (h : s.Orderly) {s' : Scheduler} (hlanes : s'.lanes = s.lanes)
    (hbatches : s'.batches.map Batch.id = s.batches.map Batch.id)
    (hbatch : s'.nextBatch = s.nextBatch) (hpair : s'.nextPair = s.nextPair) : s'.Orderly where
  ne_nil := hlanes ▸ h.ne_nil
  sorted := hlanes ▸ h.sorted
  owned := by
    rw [hlanes, hpair]
    exact h.owned
  registered := by
    intro lane hlane
    obtain ⟨b, hb, hid⟩ := isActive_iff.mp (h.registered lane (hlanes ▸ hlane))
    have hmem : b.id ∈ s'.batches.map Batch.id := hbatches ▸ List.mem_map_of_mem hb
    obtain ⟨b', hb', hid'⟩ := List.mem_map.mp hmem
    exact isActive_iff.mpr ⟨b', hb', hid'.trans hid⟩
  numbered := by
    intro b hb
    have hmem : b.id ∈ s.batches.map Batch.id := hbatches ▸ List.mem_map_of_mem hb
    obtain ⟨b', hb', hid'⟩ := List.mem_map.mp hmem
    rw [hbatch, ← hid']
    exact h.numbered b' hb'
  apart := hlanes ▸ h.apart

theorem Orderly.cancelIf (h : s.Orderly) (which : Nat → Bool) : (s.cancelIf which).Orderly := by
  refine h.congr rfl ?_ rfl rfl
  rw [Scheduler.cancelIf, List.map_map]
  refine List.map_congr_left fun b _ => ?_
  rw [Function.comp_apply]
  split <;> rfl

theorem Orderly.tick (h : s.Orderly) (now : Time) (accepting : Bool) :
    (s.tick now accepting).1.Orderly where
  ne_nil := by
    intro lane hlane
    have hmem := ((tick_lanes_perm s now accepting h.ne_nil).mem_iff.mp hlane)
    simpa only [Bool.not_eq_true', List.isEmpty_eq_false_iff] using (List.mem_filter.mp hmem).2
  sorted := by
    intro lane hlane
    obtain ⟨before, hbefore, rfl⟩ := mem_tick_lanes s now accepting hlane
    exact (h.sorted before hbefore).sublist (laneAfter_suffix s now before).sublist
  owned := by
    intro lane hlane e he
    obtain ⟨before, hbefore, rfl⟩ := mem_tick_lanes s now accepting hlane
    exact h.owned before hbefore e ((laneAfter_suffix s now before).subset he)
  registered := by
    intro lane hlane
    obtain ⟨before, hbefore, rfl⟩ := mem_tick_lanes s now accepting hlane
    rw [isActive_tick]
    exact h.registered before hbefore
  numbered := by
    intro b hb
    rw [tick_batches] at hb
    obtain ⟨before, hbefore, rfl⟩ := List.mem_map.mp hb
    exact h.numbered before hbefore
  apart := by
    have hsymm : ∀ {lane other : Lane}, (∀ e ∈ lane.edges, ∀ e' ∈ other.edges, ¬e.Kin e') →
        ∀ e ∈ other.edges, ∀ e' ∈ lane.edges, ¬e.Kin e' :=
      fun hapart e he e' he' hkin => hapart e' he' e he hkin.symm
    rw [(tick_lanes_perm s now accepting h.ne_nil).pairwise_iff hsymm]
    refine List.Pairwise.filter _ (List.pairwise_map.mpr (h.apart.imp ?_))
    intro lane other hapart e he e' he'
    exact hapart e ((laneAfter_suffix s now lane).subset he) e'
      ((laneAfter_suffix s now other).subset he')

theorem Orderly.retire (h : s.Orderly) : s.retire.1.Orderly where
  ne_nil := h.ne_nil
  sorted := h.sorted
  owned := h.owned
  registered := by
    intro lane hlane
    obtain ⟨b, hb, hid⟩ := isActive_iff.mp (h.registered lane hlane)
    refine isActive_iff.mpr ⟨b, List.mem_filter.mpr ⟨hb, ?_⟩, hid⟩
    rw [isWaiting, List.any_eq_true]
    exact ⟨lane, hlane, by rw [hid, BEq.rfl]⟩
  numbered := fun b hb => h.numbered b (List.mem_filter.mp hb).1
  apart := h.apart

/-- The lanes that a batch begins with. -/
def newLanes (batch : Nat) (reference : Time) (pair : Nat) (requests : List Request) : List Lane :=
  (keysOf (batchEdges batch reference pair requests)).map
    (laneOf batch (batchEdges batch reference pair requests))

theorem schedule_lanes (s : Scheduler) (requests : List Request) (reference : Time) :
    (s.schedule requests reference).1.lanes =
      s.lanes ++ newLanes s.nextBatch reference s.nextPair requests := rfl

theorem mem_newLanes {batch pair : Nat} {reference : Time} {requests : List Request} {lane : Lane}
    (hlane : lane ∈ newLanes batch reference pair requests) :
    lane.batch = batch ∧ lane.skipped = [] ∧ lane.edges ≠ [] ∧ lane.edges.Pairwise Edge.Before ∧
      ∀ e ∈ lane.edges, e ∈ batchEdges batch reference pair requests := by
  obtain ⟨key, hkey, rfl⟩ := List.mem_map.mp hlane
  obtain ⟨e, he, hekey⟩ := mem_keysOf.mp hkey
  refine ⟨rfl, rfl, List.ne_nil_of_mem (mem_laneOf.mpr ⟨he, hekey⟩), laneOf_pairwise .., ?_⟩
  exact fun e he => (mem_laneOf.mp he).1

theorem newLanes_apart (batch pair : Nat) (reference : Time) (requests : List Request) :
    (newLanes batch reference pair requests).Pairwise
      fun lane other => ∀ e ∈ lane.edges, ∀ e' ∈ other.edges, ¬e.Kin e' := by
  refine List.pairwise_map.mpr ((nodup_keysOf _).imp ?_)
  intro key key' hne e he e' he' hkin
  obtain ⟨hmem, hkey⟩ := mem_laneOf.mp he
  obtain ⟨hmem', hkey'⟩ := mem_laneOf.mp he'
  exact hne (hkey.symm.trans ((key_eq_of_kin hmem hmem' hkin).trans hkey'))

theorem Orderly.schedule (h : s.Orderly) (requests : List Request) (reference : Time) :
    (s.schedule requests reference).1.Orderly where
  ne_nil := by
    intro lane hlane
    rcases List.mem_append.mp hlane with hold | hnew
    · exact h.ne_nil lane hold
    · exact (mem_newLanes hnew).2.2.1
  sorted := by
    intro lane hlane
    rcases List.mem_append.mp hlane with hold | hnew
    · exact h.sorted lane hold
    · exact (mem_newLanes hnew).2.2.2.1.imp Edge.Before.le
  owned := by
    intro lane hlane e he
    rcases List.mem_append.mp hlane with hold | hnew
    · obtain ⟨hbatch, hpair⟩ := h.owned lane hold e he
      exact ⟨hbatch, Nat.lt_add_right _ hpair⟩
    · obtain ⟨hbatch, -, -, -, hmem⟩ := mem_newLanes hnew
      obtain ⟨hebatch, -, hpair⟩ := of_mem_batchEdges (hmem e he)
      exact ⟨hebatch.trans hbatch.symm, hpair⟩
  registered := by
    intro lane hlane
    rcases List.mem_append.mp hlane with hold | hnew
    · obtain ⟨b, hb, hid⟩ := isActive_iff.mp (h.registered lane hold)
      exact isActive_iff.mpr ⟨b, List.mem_append_left _ hb, hid⟩
    · refine isActive_iff.mpr ⟨_, List.mem_append_right _ (List.mem_singleton_self _), ?_⟩
      exact (mem_newLanes hnew).1.symm
  numbered := by
    intro b hb
    rcases List.mem_append.mp hb with hold | hnew
    · exact Nat.lt_succ_of_lt (h.numbered b hold)
    · rw [List.mem_singleton.mp hnew]
      exact Nat.lt_succ_self _
  apart := by
    refine List.pairwise_append.mpr ⟨h.apart, newLanes_apart .., ?_⟩
    intro lane hold other hnew e he e' he' hkin
    obtain ⟨hbatch, hpair⟩ := h.owned lane hold e he
    obtain ⟨-, -, -, -, hmem⟩ := mem_newLanes hnew
    obtain ⟨hbatch', hpair', -⟩ := of_mem_batchEdges (hmem e' he')
    rcases hkin with heq | ⟨heq, -⟩
    · omega
    · have := h.lt_of_isActive (h.registered lane hold)
      omega

end CrowdPad.Scheduler
