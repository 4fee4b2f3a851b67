import CrowdPad.Scheduler.Basic
import Mathlib.Data.List.Basic

/-! The edges of a batch and the order in which its lanes hold them. The sort that makes a lane looks
at the times alone; as it keeps the order of what is due at one moment, the lane stands in the order
of time, request and direction. -/

namespace CrowdPad

def Request.pressEdge (r : Request) (batch pair : Nat) (reference : Time) : Edge :=
  { batch, pair, fireAt := reference + r.delayMs.toNat, key := r.verb.key, verb := r.verb.name
    transition := .press }

def Request.releaseEdge (r : Request) (batch pair : Nat) (reference : Time) : Edge :=
  { batch, pair, fireAt := reference + r.releaseMs, key := r.verb.key, verb := r.verb.name
    transition := .release }

theorem Request.pressEdge_le_releaseEdge (r : Request) (batch pair : Nat) (reference : Time) :
    (r.pressEdge batch pair reference).fireAt ≤ (r.releaseEdge batch pair reference).fireAt := by
  simp only [pressEdge, releaseEdge, releaseMs]
  lia

/-- Two edges of one pair, or of one batch on one key. They stand in the same lane. -/
def Edge.Kin (e other : Edge) : Prop :=
  e.pair = other.pair ∨ e.batch = other.batch ∧ e.key = other.key

theorem Edge.Kin.symm {e other : Edge} (h : e.Kin other) : other.Kin e :=
  h.imp Eq.symm fun ⟨hbatch, hkey⟩ => ⟨hbatch.symm, hkey.symm⟩

/-- Whether an edge stands before another one in the list that a batch begins as: by request, and
the press before the release. -/
def Edge.Precedes (e other : Edge) : Prop :=
  e.pair < other.pair ∨ e.pair = other.pair ∧ e.transition = .press ∧ other.transition = .release

/-- Whether an edge is to be handed over before another one of its lane: by time, then by request,
then the press before the release. -/
def Edge.Before (e other : Edge) : Prop :=
  e.fireAt < other.fireAt ∨ e.fireAt = other.fireAt ∧ e.Precedes other

theorem Edge.Before.le {e other : Edge} (h : e.Before other) : e.fireAt ≤ other.fireAt :=
  h.elim Int.le_of_lt fun htie => Int.le_of_eq htie.1

/-! ### The list of all edges -/

namespace Scheduler

variable {batch : Nat} {reference : Time}

theorem edgesOf_eq (batch pair : Nat) (reference : Time) (r : Request) :
    edgesOf batch pair reference r =
      [r.pressEdge batch pair reference, r.releaseEdge batch pair reference] := rfl

/-- The edges of a batch are the presses and releases of its requests. -/
theorem mem_batchEdges {pair : Nat} {requests : List Request} {e : Edge} :
    e ∈ batchEdges batch reference pair requests ↔
      ∃ i, ∃ hi : i < requests.length, e ∈ edgesOf batch (pair + i) reference requests[i] := by
  induction requests generalizing pair with
  | nil =>
      constructor
      · intro he
        exact absurd he List.not_mem_nil
      · rintro ⟨i, hi, -⟩
        exact absurd hi (Nat.not_lt_zero i)
  | cons r rest ih =>
      rw [batchEdges, List.mem_append, ih]
      constructor
      · rintro (he | ⟨i, hi, he⟩)
        · exact ⟨0, Nat.succ_pos _, he⟩
        · refine ⟨i + 1, Nat.succ_lt_succ hi, ?_⟩
          rwa [← Nat.add_assoc, Nat.add_right_comm]
      · rintro ⟨i, hi, he⟩
        cases i with
        | zero => exact Or.inl he
        | succ i =>
            refine Or.inr ⟨i, Nat.lt_of_succ_lt_succ hi, ?_⟩
            rwa [Nat.add_right_comm, Nat.add_assoc]

theorem of_mem_edgesOf {pair : Nat} {r : Request} {e : Edge}
    (he : e ∈ edgesOf batch pair reference r) :
    e.batch = batch ∧ e.pair = pair ∧ e.key = r.verb.key := by
  rw [edgesOf_eq, List.mem_cons, List.mem_singleton] at he
  rcases he with rfl | rfl <;> exact ⟨rfl, rfl, rfl⟩

theorem of_mem_batchEdges {pair : Nat} {requests : List Request} {e : Edge}
    (he : e ∈ batchEdges batch reference pair requests) :
    e.batch = batch ∧ pair ≤ e.pair ∧ e.pair < pair + requests.length := by
  obtain ⟨i, hi, hmem⟩ := mem_batchEdges.mp he
  obtain ⟨hbatch, hpair, -⟩ := of_mem_edgesOf hmem
  exact ⟨hbatch, by omega, by omega⟩

theorem key_eq_of_kin {pair : Nat} {requests : List Request} {e other : Edge}
    (he : e ∈ batchEdges batch reference pair requests)
    (hother : other ∈ batchEdges batch reference pair requests) (hkin : e.Kin other) :
    e.key = other.key := by
  rcases hkin with hpair | ⟨-, hkey⟩
  · obtain ⟨i, hi, hmem⟩ := mem_batchEdges.mp he
    obtain ⟨j, hj, hmem'⟩ := mem_batchEdges.mp hother
    obtain ⟨-, hpi, hkey⟩ := of_mem_edgesOf hmem
    obtain ⟨-, hpj, hkey'⟩ := of_mem_edgesOf hmem'
    have hij : i = j := by omega
    subst hij
    rw [hkey, hkey']
  · exact hkey

theorem batchEdges_filter_pair {pair : Nat} {requests : List Request} {i : Nat}
    (hi : i < requests.length) :
    (batchEdges batch reference pair requests).filter (·.pair == pair + i) =
      edgesOf batch (pair + i) reference requests[i] := by
  induction requests generalizing pair i with
  | nil => exact absurd hi (Nat.not_lt_zero i)
  | cons r rest ih =>
      rw [batchEdges, List.filter_append]
      cases i with
      | zero =>
          have hrest : (batchEdges batch reference (pair + 1) rest).filter
              (·.pair == pair + 0) = [] := by
            rw [List.filter_eq_nil_iff]
            intro e he
            have := (of_mem_batchEdges he).2.1
            simp only [beq_iff_eq]
            omega
          rw [hrest, List.append_nil, List.filter_eq_self.mpr]
          · rfl
          · intro e he
            rw [(of_mem_edgesOf he).2.1, Nat.add_zero, BEq.rfl]
      | succ i =>
          have hfirst : (edgesOf batch pair reference r).filter (·.pair == pair + (i + 1)) = [] := by
            rw [List.filter_eq_nil_iff]
            intro e he
            rw [(of_mem_edgesOf he).2.1, beq_iff_eq]
            omega
          have hshift : pair + (i + 1) = pair + 1 + i := by omega
          rw [hfirst, List.nil_append, hshift, ih (Nat.lt_of_succ_lt_succ hi)]
          rfl

theorem batchEdges_pairwise (batch : Nat) (reference : Time) (pair : Nat)
    (requests : List Request) :
    (batchEdges batch reference pair requests).Pairwise Edge.Precedes := by
  induction requests generalizing pair with
  | nil => exact List.Pairwise.nil
  | cons r rest ih =>
      rw [batchEdges, List.pairwise_append]
      refine ⟨?_, ih (pair + 1), ?_⟩
      · rw [edgesOf_eq, List.pairwise_pair]
        exact Or.inr ⟨rfl, rfl, rfl⟩
      · intro e he other hother
        have hpair := (of_mem_edgesOf he).2.1
        have hother := (of_mem_batchEdges hother).2.1
        exact Or.inl (by omega)

end Scheduler

/-! ### Sorting -/

/-- A stable sort orders by the key of the sort, and what is equal there as it was. -/
theorem mergeSort_pairwise_stable {α : Type} {le : α → α → Bool} {r : α → α → Prop}
    (trans : ∀ a b c, le a b → le b c → le a c) (total : ∀ a b, le a b || le b a) {xs : List α}
    (h : xs.Pairwise r) : (xs.mergeSort le).Pairwise fun a b => le a b ∧ (le b a → r a b) := by
  induction xs with
  | nil =>
      rw [List.mergeSort_nil]
      exact List.Pairwise.nil
  | cons a xs ih =>
      obtain ⟨hhead, htail⟩ := List.pairwise_cons.mp h
      obtain ⟨left, right, hsort, hrest, hless⟩ := List.mergeSort_cons trans total a xs
      have hsorted := List.pairwise_mergeSort trans total (a :: xs)
      have hstable := ih htail
      rw [hsort, List.pairwise_append, List.pairwise_cons] at hsorted
      rw [hrest, List.pairwise_append] at hstable
      rw [hsort, List.pairwise_append, List.pairwise_cons]
      refine ⟨hstable.1, ⟨?_, hstable.2.1⟩, ?_⟩
      · intro b hb
        have hmem : b ∈ xs.mergeSort le := hrest ▸ List.mem_append_right left hb
        exact ⟨hsorted.2.1.1 b hb, fun _ => hhead b (List.mem_mergeSort.mp hmem)⟩
      · intro b hb c hc
        rcases List.mem_cons.mp hc with rfl | hright
        · refine ⟨hsorted.2.2 b hb c (List.mem_cons_self ..), fun hle => ?_⟩
          have := hless b hb
          simp only [hle, Bool.not_true, Bool.false_eq_true] at this
        · exact hstable.2.2 b hb c hright

theorem nodup_eraseDups {α : Type} [BEq α] [LawfulBEq α] (xs : List α) : xs.eraseDups.Nodup := by
  induction hlength : xs.length using Nat.strongRecOn generalizing xs with
  | ind n ih =>
      cases xs with
      | nil => exact List.nodup_nil
      | cons a xs =>
          have hshort := List.length_filter_le (fun b => !b == a) xs
          rw [List.length_cons] at hlength
          rw [List.eraseDups_cons, List.nodup_cons]
          refine ⟨?_, ih _ (by omega) _ rfl⟩
          rw [List.mem_eraseDups, List.mem_filter]
          simp

/-! ### Lanes -/

namespace Scheduler

theorem mem_keysOf {edges : List Edge} {key : String} :
    key ∈ keysOf edges ↔ ∃ e ∈ edges, e.key = key := by
  rw [keysOf, List.mem_mergeSort, List.mem_eraseDups, List.mem_map]

theorem nodup_keysOf (edges : List Edge) : (keysOf edges).Nodup :=
  (List.mergeSort_perm _ _).nodup_iff.mpr (nodup_eraseDups _)

theorem laneOf_edges (batch : Nat) (edges : List Edge) (key : String) :
    (laneOf batch edges key).edges = (edges.filter fun e => e.key == key).mergeSort
      fun left right => left.fireAt ≤ right.fireAt := rfl

theorem mem_laneOf {batch : Nat} {edges : List Edge} {key : String} {e : Edge} :
    e ∈ (laneOf batch edges key).edges ↔ e ∈ edges ∧ e.key = key := by
  rw [laneOf_edges, List.mem_mergeSort, List.mem_filter, beq_iff_eq]

private theorem fireAt_trans (a b c : Edge) (hab : decide (a.fireAt ≤ b.fireAt))
    (hbc : decide (b.fireAt ≤ c.fireAt)) : decide (a.fireAt ≤ c.fireAt) :=
  decide_eq_true (Int.le_trans (of_decide_eq_true hab) (of_decide_eq_true hbc))

private theorem fireAt_total (a b : Edge) :
    decide (a.fireAt ≤ b.fireAt) || decide (b.fireAt ≤ a.fireAt) := by
  rw [Bool.or_eq_true, decide_eq_true_iff, decide_eq_true_iff]
  exact Int.le_total a.fireAt b.fireAt

/-- The edges of a lane stand in the order in which they are to be handed over. -/
theorem laneOf_pairwise (batch : Nat) (reference : Time) (pair : Nat) (requests : List Request)
    (key : String) :
    (laneOf batch (batchEdges batch reference pair requests) key).edges.Pairwise Edge.Before := by
  have hlist := (batchEdges_pairwise batch reference pair requests).filter fun e => e.key == key
  refine (mergeSort_pairwise_stable fireAt_trans fireAt_total hlist).imp ?_
  intro a b ⟨hle, htie⟩
  rcases Int.lt_or_eq_of_le (of_decide_eq_true hle) with hlt | heq
  · exact Or.inl hlt
  · exact Or.inr ⟨heq, htie (decide_eq_true (Int.le_of_eq heq.symm))⟩

/-- A lane holds the press of a pair before its release. -/
theorem laneOf_filter_pair {batch : Nat} {reference : Time} {pair : Nat} {requests : List Request}
    {i : Nat} (hi : i < requests.length) :
    (laneOf batch (batchEdges batch reference pair requests) requests[i].verb.key).edges.filter
        (·.pair == pair + i) =
      edgesOf batch (pair + i) reference requests[i] := by
  have hpair : (batchEdges batch reference pair requests).filter (·.pair == pair + i) =
      edgesOf batch (pair + i) reference requests[i] := batchEdges_filter_pair hi
  have hkey : (edgesOf batch (pair + i) reference requests[i]).filter
      (fun e => e.key == requests[i].verb.key) = edgesOf batch (pair + i) reference requests[i] := by
    rw [List.filter_eq_self]
    intro e he
    rw [(of_mem_edgesOf he).2.2, BEq.rfl]
  have hsame : (edgesOf batch (pair + i) reference requests[i]).filter (·.pair == pair + i) =
      edgesOf batch (pair + i) reference requests[i] := by
    rw [List.filter_eq_self]
    intro e he
    rw [(of_mem_edgesOf he).2.1, BEq.rfl]
  have hsub := (hpair ▸ List.filter_sublist : (edgesOf batch (pair + i) reference requests[i]).Sublist
    (batchEdges batch reference pair requests)).filter (fun e => e.key == requests[i].verb.key)
  rw [hkey] at hsub
  have hsorted : (edgesOf batch (pair + i) reference requests[i]).Pairwise
      (fun a b => decide (a.fireAt ≤ b.fireAt)) := by
    rw [edgesOf_eq, List.pairwise_pair]
    exact decide_eq_true (Request.pressEdge_le_releaseEdge ..)
  have hlane := (List.sublist_mergeSort fireAt_trans fireAt_total hsorted hsub).filter
    (·.pair == pair + i)
  rw [hsame] at hlane
  refine (hlane.eq_of_length_le ?_).symm
  rw [((List.mergeSort_perm _ _).filter _).length_eq, List.filter_comm, hpair]
  exact List.length_filter_le _ _

end Scheduler

end CrowdPad
