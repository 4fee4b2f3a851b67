import CrowdPad.Proofs.Scheduler.Plan
import Mathlib.Algebra.Ring.Nat
import Mathlib.Data.List.Perm.Subperm

/-! Keys that are held. Counting up with every press and down with every release, a counter that
starts with the presses a scheduler has handed over and not yet released never falls below zero. It
is enough to see this for one lane: the releases still in a lane belong to presses still in it, to
presses given up, and to presses that are held. -/

namespace CrowdPad

/-! ### The counter -/

/-- How many presses are held at the end, if no release comes without a press before it. -/
def heldAfter? : Nat → List Transition → Option Nat
  | held, [] => some held
  | held, .press :: rest => heldAfter? (held + 1) rest
  | 0, .release :: _ => none
  | held + 1, .release :: rest => heldAfter? held rest

theorem heldAfter?_append (held : Nat) (xs ys : List Transition) :
    heldAfter? held (xs ++ ys) = (heldAfter? held xs).bind fun n => heldAfter? n ys := by
  fun_induction heldAfter? held xs with
  | case1 => rfl
  | case2 held rest ih => exact ih
  | case3 => rfl
  | case4 held rest ih => exact ih

/-- Keys that are held all along make no difference. -/
theorem heldAfter?_add {held n : Nat} {xs : List Transition} (more : Nat)
    (h : heldAfter? held xs = some n) : heldAfter? (held + more) xs = some (n + more) := by
  fun_induction heldAfter? held xs with
  | case1 held => simpa [heldAfter?] using h
  | case2 held rest ih =>
      rw [heldAfter?, Nat.add_right_comm]
      exact ih h
  | case3 => cases h
  | case4 held rest ih =>
      rw [Nat.succ_add, heldAfter?]
      exact ih h

theorem count_of_heldAfter? {held n : Nat} {xs : List Transition} (h : heldAfter? held xs = some n) :
    held + xs.count .press = n + xs.count .release := by
  fun_induction heldAfter? held xs with
  | case1 held =>
      cases h
      simp
  | case2 held rest ih =>
      have hrest := ih h
      simp
      omega
  | case3 => cases h
  | case4 held rest ih =>
      have hrest := ih h
      simp
      omega

theorem count_le_of_heldAfter? {held n : Nat} {xs ys : List Transition}
    (h : heldAfter? held ys = some n) (hxs : xs <+: ys) :
    xs.count .release ≤ held + xs.count .press := by
  obtain ⟨rest, rfl⟩ := hxs
  rw [heldAfter?_append, Option.bind_eq_some_iff] at h
  obtain ⟨m, hm, -⟩ := h
  have := count_of_heldAfter? hm
  omega

/-- What holds of the parts with counters of their own holds of the whole with their sum. -/
theorem heldAfter?_flatMap {α : Type} {as : List α} {before after : α → Nat}
    {transitions : α → List Transition}
    (h : ∀ a ∈ as, heldAfter? (before a) (transitions a) = some (after a)) :
    heldAfter? (as.map before).sum (as.flatMap transitions) = some (as.map after).sum := by
  induction as with
  | nil => rfl
  | cons a as ih =>
      have hfirst := heldAfter?_add (as.map before).sum (h a (List.mem_cons_self ..))
      have hrest := heldAfter?_add (after a) (ih fun b hb => h b (List.mem_cons_of_mem _ hb))
      rw [List.map_cons, List.sum_cons, List.flatMap_cons, heldAfter?_append, hfirst,
        Option.bind_some, Nat.add_comm, hrest, List.map_cons, List.sum_cons, Nat.add_comm]

theorem sum_map_filter {α : Type} {as : List α} {p : α → Bool} {f : α → Nat}
    (h : ∀ a ∈ as, p a = false → f a = 0) : ((as.filter p).map f).sum = (as.map f).sum := by
  induction as with
  | nil => rfl
  | cons a as ih =>
      have hrest := ih fun b hb => h b (List.mem_cons_of_mem _ hb)
      cases hp : p a with
      | true => simp [hp, hrest]
      | false => simp [hp, hrest, h a (List.mem_cons_self ..) hp]

/-! ### Lanes -/

/-- Whether every release is that of a press before it or of one begun already, and every press has
its release. -/
def Closes : List Nat → List Edge → Prop
  | begun, [] => begun = []
  | begun, e :: rest =>
    match e.transition with
    | .press => Closes (e.pair :: begun) rest
    | .release => e.pair ∈ begun ∧ Closes (begun.erase e.pair) rest

section Closes

variable {begun : List Nat} {e : Edge} {rest : List Edge}

theorem closes_press (hpress : e.transition = .press) :
    Closes begun (e :: rest) ↔ Closes (e.pair :: begun) rest := by
  rw [Closes, hpress]

theorem closes_release (hrelease : e.transition = .release) :
    Closes begun (e :: rest) ↔ e.pair ∈ begun ∧ Closes (begun.erase e.pair) rest := by
  rw [Closes, hrelease]

theorem Closes.count {edges : List Edge} (h : Closes begun edges) :
    (edges.map (·.transition)).count .release =
      (edges.map (·.transition)).count .press + begun.length := by
  induction edges generalizing begun with
  | nil =>
      cases h
      rfl
  | cons e rest ih =>
      cases htransition : e.transition with
      | press =>
          have hrest := ih ((closes_press htransition).mp h)
          rw [List.length_cons] at hrest
          simp [htransition]
          omega
      | release =>
          obtain ⟨hmem, hclosed⟩ := (closes_release htransition).mp h
          have hrest := ih hclosed
          have hlength := List.length_erase_of_mem hmem
          have hpos := List.length_pos_of_mem hmem
          simp [htransition]
          omega

/-- Edges close if those of every pair do. -/
theorem closes_of_pairs {edges : List Edge} (hnodup : begun.Nodup)
    (hpairs : ∀ pair, ((edges.filter (·.pair == pair)).map (·.transition) = [.release] ∧ pair ∈ begun)
      ∨ (((edges.filter (·.pair == pair)).map (·.transition) = [] ∨
        (edges.filter (·.pair == pair)).map (·.transition) = [.press, .release]) ∧
        pair ∉ begun)) : Closes begun edges := by
  induction edges generalizing begun with
  | nil =>
      rw [Closes, List.eq_nil_iff_forall_not_mem]
      intro pair
      rcases hpairs pair with ⟨hrelease, -⟩ | ⟨-, hnot⟩
      · cases hrelease
      · exact hnot
  | cons e rest ih =>
      have hother : ∀ pair, pair ≠ e.pair →
          (e :: rest).filter (·.pair == pair) = rest.filter (·.pair == pair) := by
        intro pair hne
        rw [List.filter_cons_of_neg]
        simpa using hne.symm
      have hown : (e :: rest).filter (·.pair == e.pair) = e :: rest.filter (·.pair == e.pair) :=
        List.filter_cons_of_pos (beq_self_eq_true e.pair)
      have hpair := hpairs e.pair
      rw [hown, List.map_cons] at hpair
      cases htransition : e.transition with
      | press =>
          rw [htransition] at hpair
          obtain ⟨hrest, hnot⟩ : (rest.filter (·.pair == e.pair)).map (·.transition) = [.release] ∧
              e.pair ∉ begun := by simpa using hpair
          have hmore : (e.pair :: begun).Nodup := List.nodup_cons.mpr ⟨hnot, hnodup⟩
          refine (closes_press htransition).mpr (ih hmore fun pair => ?_)
          by_cases hsame : pair = e.pair
          · subst hsame
            exact .inl ⟨hrest, List.mem_cons_self ..⟩
          · simpa [hother pair hsame, hsame] using hpairs pair
      | release =>
          rw [htransition] at hpair
          obtain ⟨hrest, hmem⟩ : (rest.filter (·.pair == e.pair)).map (·.transition) = [] ∧
              e.pair ∈ begun := by simpa using hpair
          refine (closes_release htransition).mpr ⟨hmem, ih (hnodup.erase _) fun pair => ?_⟩
          by_cases hsame : pair = e.pair
          · subst hsame
            exact .inr ⟨.inl hrest, hnodup.not_mem_erase⟩
          · simpa [hother pair hsame, List.mem_erase_of_ne hsame] using hpairs pair

end Closes

/-- The number of presses that a lane has handed over and not yet released. -/
def Lane.held (lane : Lane) : Nat :=
  (lane.edges.map (·.transition)).count .release - (lane.edges.map (·.transition)).count .press -
    lane.skipped.length

/-- Whether the releases of a lane are those of its presses, of presses given up, and of presses that
are held. -/
def Lane.Matched (lane : Lane) : Prop :=
  ∃ begun, Closes begun lane.edges ∧ lane.skipped.Subperm begun

theorem Lane.held_of_closes {lane : Lane} {begun : List Nat} (h : Closes begun lane.edges) :
    lane.held = begun.length - lane.skipped.length := by
  have hcount := h.count
  rw [held]
  omega

/-- Along a walk presses and releases keep the books. -/
theorem walkLane_closes (now : Time) (cancelled : Bool) (skipped : List Nat) (edges : List Edge)
    (begun : List Nat) (h : Closes begun edges) (hskipped : skipped.Subperm begun) :
    ∃ begun', Closes begun' (walkLane now cancelled skipped edges).rest ∧
      (walkLane now cancelled skipped edges).skipped.Subperm begun' ∧
      heldAfter? (begun.length - skipped.length)
          ((walkLane now cancelled skipped edges).handed.map (·.transition)) =
        some (begun'.length - (walkLane now cancelled skipped edges).skipped.length) := by
  revert begun
  fun_induction walkLane now cancelled skipped edges with
  | case1 | case4 | case7 => exact fun begun h hskipped => ⟨begun, h, hskipped, rfl⟩
  | case2 skipped e rest hpress hcancelled walk ih =>
      intro begun h hskipped
      have hmore := (List.subperm_cons e.pair).mpr hskipped
      obtain ⟨begun', hclosed, hsub, hheld⟩ := ih _ ((closes_press hpress).mp h) hmore
      rw [List.length_cons, List.length_cons, Nat.add_sub_add_right] at hheld
      exact ⟨begun', hclosed, hsub, hheld⟩
  | case3 skipped e rest hpress hcancelled hdue walk ih =>
      intro begun h hskipped
      have hmore := hskipped.trans (List.sublist_cons_self e.pair begun).subperm
      obtain ⟨begun', hclosed, hsub, hheld⟩ := ih _ ((closes_press hpress).mp h) hmore
      rw [List.length_cons, Nat.sub_add_comm hskipped.length_le] at hheld
      refine ⟨begun', hclosed, hsub, ?_⟩
      rw [List.map_cons, hpress, heldAfter?]
      exact hheld
  | case5 skipped e rest hrelease hcontains ih =>
      intro begun h hskipped
      obtain ⟨hmem, hrest⟩ := (closes_release hrelease).mp h
      have hgiven : e.pair ∈ skipped := List.contains_iff_mem.mp hcontains
      obtain ⟨begun', hclosed, hsub, hheld⟩ := ih _ hrest (hskipped.erase e.pair)
      have hsame : (begun.erase e.pair).length - (skipped.erase e.pair).length =
          begun.length - skipped.length := by
        rw [List.length_erase_of_mem hmem, List.length_erase_of_mem hgiven]
        have := List.length_pos_of_mem hgiven
        omega
      rw [hsame] at hheld
      exact ⟨begun', hclosed, hsub, hheld⟩
  | case6 skipped e rest hrelease hcontains hdue walk ih =>
      intro begun h hskipped
      obtain ⟨hmem, hrest⟩ := (closes_release hrelease).mp h
      have hfresh : e.pair ∉ skipped := fun hgiven => hcontains (List.contains_iff_mem.mpr hgiven)
      -- the press of this release is held: its pair was begun and not given up
      have hmore := hskipped.erase e.pair
      rw [List.erase_of_not_mem hfresh] at hmore
      obtain ⟨begun', hclosed, hsub, hheld⟩ := ih _ hrest hmore
      have hsame : begun.length - skipped.length =
          (begun.erase e.pair).length - skipped.length + 1 := by
        have hlength := List.length_erase_of_mem hmem
        have hpos := List.length_pos_of_mem hmem
        have hle := hmore.length_le
        omega
      refine ⟨begun', hclosed, hsub, ?_⟩
      rw [List.map_cons, hrelease, hsame, heldAfter?]
      exact hheld

/-! ### Schedulers -/

namespace Scheduler

/-- Whether the edges of every lane are for one key, and every release has its press. -/
structure Paired (s : Scheduler) : Prop where
  matched : ∀ lane ∈ s.lanes, lane.Matched
  keyed : ∀ lane ∈ s.lanes, ∀ e ∈ lane.edges, ∀ e' ∈ lane.edges, e.key = e'.key

/-- Whether a condition on edges asks for nothing but batch and key. -/
def Coarse (q : Edge → Bool) : Prop :=
  ∀ e e' : Edge, e.batch = e'.batch → e.key = e'.key → q e = q e'

/-- The number of presses of the edges that a condition picks out that are handed over and not yet
released. -/
def heldWhere (s : Scheduler) (q : Edge → Bool) : Nat := ((s.bearers q).map Lane.held).sum

variable {s : Scheduler} {q : Edge → Bool}

theorem heldWhere_eq_zero (h : s.bearers q = []) : s.heldWhere q = 0 := by
  rw [heldWhere, h]
  rfl

/-! ### A tick -/

theorem matched_laneAfter (s : Scheduler) (now : Time) {lane : Lane} (h : lane.Matched) :
    (s.laneAfter now lane).Matched ∧
      heldAfter? lane.held ((s.walkOf now lane).handed.map (·.transition)) =
        some (s.laneAfter now lane).held := by
  obtain ⟨begun, hclosed, hskipped⟩ := h
  obtain ⟨begun', hclosed', hskipped', hheld⟩ :=
    walkLane_closes now (s.isCancelled lane.batch) lane.skipped lane.edges begun hclosed hskipped
  have hafter : Closes begun' (s.laneAfter now lane).edges := hclosed'
  refine ⟨⟨begun', hafter, hskipped'⟩, ?_⟩
  rw [Lane.held_of_closes hclosed, Lane.held_of_closes hafter]
  exact hheld

theorem Paired.tick (hpaired : s.Paired) (now : Time) (accepting : Bool) :
    (s.tick now accepting).1.Paired where
  matched := by
    intro lane hlane
    obtain ⟨before, hbefore, rfl⟩ := mem_tick_lanes s now accepting hlane
    exact (matched_laneAfter s now (hpaired.matched before hbefore)).1
  keyed := by
    intro lane hlane e he e' he'
    obtain ⟨before, hbefore, rfl⟩ := mem_tick_lanes s now accepting hlane
    have hsuffix := laneAfter_suffix s now before
    exact hpaired.keyed before hbefore e (hsuffix.subset he) e' (hsuffix.subset he')

/-- A lane bears only edges that a coarse condition picks out, or none of them. -/
theorem Paired.of_mem_bearers (hpaired : s.Paired) (h : s.Orderly) (hq : Coarse q) {lane : Lane}
    (hlane : lane ∈ s.bearers q) : ∀ e ∈ lane.edges, q e := by
  obtain ⟨hmem, e', he', hqe'⟩ := mem_bearers.mp hlane
  intro e he
  have hbatch := (h.owned lane hmem e he).1.trans (h.owned lane hmem e' he').1.symm
  rw [hq e e' hbatch (hpaired.keyed lane hmem e he e' he')]
  exact hqe'

/-- A tick hands over presses and releases as the books say. -/
theorem Paired.tick_held (hpaired : s.Paired) (h : s.Orderly) (hq : Coarse q) (now : Time)
    (accepting : Bool) :
    heldAfter? (s.heldWhere q) (((s.tick now accepting).2.filter q).map (·.transition)) =
      some ((s.tick now accepting).1.heldWhere q) := by
  have hedges : ((s.tick now accepting).2.filter q).map (·.transition) =
      (s.bearers q).flatMap fun lane => (s.walkOf now lane).handed.map (·.transition) := by
    rw [tick_edges_filter, List.map_flatMap]
    refine List.flatMap_congr fun lane hlane => ?_
    rw [List.filter_eq_self.mpr]
    intro e he
    exact hpaired.of_mem_bearers h hq hlane e ((walkLane_handed_sublist _ _ _ _).subset he)
  -- a lane that bears no more of these edges bears no edge at all, and so holds nothing
  have hgone : ∀ lane ∈ (s.bearers q).map (s.laneAfter now), lane.edges.any q = false →
      lane.held = 0 := by
    intro after hafter hnone
    obtain ⟨lane, hlane, rfl⟩ := List.mem_map.mp hafter
    have hnil : (s.laneAfter now lane).edges = [] := by
      rw [List.eq_nil_iff_forall_not_mem]
      intro e he
      have hqe := hpaired.of_mem_bearers h hq hlane e ((laneAfter_suffix s now lane).subset he)
      exact List.any_eq_false.mp hnone e he hqe
    rw [Lane.held, hnil]
    simp
  have hafter : (s.tick now accepting).1.heldWhere q =
      ((s.bearers q).map fun lane => (s.laneAfter now lane).held).sum := by
    rw [heldWhere, ((h.bearers_tick_perm now accepting q).map Lane.held).sum_nat,
      sum_map_filter hgone, List.map_map]
    rfl
  rw [hedges, hafter, heldWhere]
  apply heldAfter?_flatMap
  intro lane hlane
  exact (matched_laneAfter s now (hpaired.matched lane (mem_bearers.mp hlane).1)).2

/-! ### The other operations -/

theorem paired_empty : Paired {} where
  matched := fun _ h => absurd h List.not_mem_nil
  keyed := fun _ h => absurd h List.not_mem_nil

theorem Paired.retire (hpaired : s.Paired) : s.retire.1.Paired :=
  ⟨hpaired.matched, hpaired.keyed⟩

theorem Paired.cancelIf (hpaired : s.Paired) (which : Nat → Bool) : (s.cancelIf which).Paired :=
  ⟨hpaired.matched, hpaired.keyed⟩

/-- A batch begins with nothing held. -/
theorem closes_newLane {batch pair : Nat} {reference : Time} {requests : List Request} {lane : Lane}
    (hlane : lane ∈ newLanes batch reference pair requests) : Closes [] lane.edges := by
  obtain ⟨key, -, rfl⟩ := List.mem_map.mp hlane
  refine closes_of_pairs List.nodup_nil fun p => .inr ⟨?_, List.not_mem_nil⟩
  by_cases hnone : (laneOf batch (batchEdges batch reference pair requests) key).edges.filter
      (·.pair == p) = []
  · exact .inl (by rw [hnone]; rfl)
  · obtain ⟨e, he⟩ := List.exists_mem_of_ne_nil _ hnone
    obtain ⟨hmem, hp⟩ := List.mem_filter.mp he
    obtain ⟨hbatch, hkey⟩ := mem_laneOf.mp hmem
    obtain ⟨i, hi, hedge⟩ := mem_batchEdges.mp hbatch
    obtain ⟨-, hpair, hverb⟩ := of_mem_edgesOf hedge
    have hp : p = pair + i := by rw [← hpair, beq_iff_eq.mp hp]
    refine .inr ?_
    rw [hp, ← hkey, hverb, laneOf_filter_pair hi]
    rfl

theorem newLanes_held {batch pair : Nat} {reference : Time} {requests : List Request} {lane : Lane}
    (hlane : lane ∈ newLanes batch reference pair requests) : lane.held = 0 := by
  rw [Lane.held_of_closes (closes_newLane hlane), List.length_nil, Nat.zero_sub]

theorem Paired.schedule (hpaired : s.Paired) (requests : List Request) (reference : Time) :
    (s.schedule requests reference).1.Paired where
  matched := by
    intro lane hlane
    rcases List.mem_append.mp hlane with hold | hnew
    · exact hpaired.matched lane hold
    · refine ⟨[], closes_newLane hnew, ?_⟩
      rw [(mem_newLanes hnew).2.1]
  keyed := by
    intro lane hlane e he e' he'
    rcases List.mem_append.mp hlane with hold | hnew
    · exact hpaired.keyed lane hold e he e' he'
    · obtain ⟨key, -, rfl⟩ := List.mem_map.mp hnew
      rw [(mem_laneOf.mp he).2, (mem_laneOf.mp he').2]

theorem heldWhere_schedule (s : Scheduler) (requests : List Request) (reference : Time)
    (q : Edge → Bool) : (s.schedule requests reference).1.heldWhere q = s.heldWhere q := by
  rw [heldWhere, bearers, schedule_lanes, List.filter_append, List.map_append, List.sum_append]
  have hnew : (((newLanes s.nextBatch reference s.nextPair requests).filter
      fun lane => lane.edges.any q).map Lane.held).sum = 0 := by
    refine List.sum_eq_zero_iff_forall_eq_nat.mpr fun n hn => ?_
    obtain ⟨lane, hlane, rfl⟩ := List.mem_map.mp hn
    exact newLanes_held (List.mem_filter.mp hlane).1
  rw [hnew, Nat.add_zero]
  rfl

/-- Where no batch is active, no lane is left. -/
theorem Orderly.lanes_eq_nil (h : s.Orderly) (hidle : s.batches = []) : s.lanes = [] := by
  rw [List.eq_nil_iff_forall_not_mem]
  intro lane hlane
  obtain ⟨b, hb, -⟩ := isActive_iff.mp (h.registered lane hlane)
  rw [hidle] at hb
  exact List.not_mem_nil hb

end Scheduler

end CrowdPad
