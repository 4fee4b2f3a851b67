import CrowdPad.Proofs.Verb.Consistency
import Mathlib

/-! Random picks. The weights of a table come to what was declared. As long as that fits in 32 bits, every
draw picks a verb and every verb with a weight is picked by some draw; nothing that is checked while a table
is built sees to it that it fits. -/

namespace CrowdPad

/-- What a declaration adds to the sum of the random weights. -/
def Declaration.share : Declaration → Nat
  | .weight _ share => share.toNat
  | _ => 0

namespace VerbTable

/-! ### Sums of weights -/

theorem totalWeight_eq (t : VerbTable) :
    t.totalWeight = (t.weights.map fun entry => entry.2.toNat).sum :=
  List.foldr_map.symm

theorem addUp?_from (weights : List (String × UInt32)) (sum : UInt32) :
    (weights.foldlM (fun sum entry =>
      if sum.toNat + entry.2.toNat < UInt32.size then some (sum + entry.2) else none) sum) =
      if sum.toNat + (weights.map fun entry => entry.2.toNat).sum < UInt32.size then
        some (UInt32.ofNat (sum.toNat + (weights.map fun entry => entry.2.toNat).sum))
      else none := by
  induction weights generalizing sum with
  | nil =>
      have hsum : sum.toNat < UInt32.size := sum.toNat_lt_size
      simp [hsum]
  | cons entry rest ih =>
      rw [List.foldlM_cons, List.map_cons, List.sum_cons, ← Nat.add_assoc]
      by_cases hfits : sum.toNat + entry.2.toNat < UInt32.size
      · have hnext : (sum + entry.2).toNat = sum.toNat + entry.2.toNat := by
          rw [UInt32.toNat_add]
          exact Nat.mod_eq_of_lt hfits
        rw [if_pos hfits, ← hnext]
        exact ih (sum + entry.2)
      · have hover : ¬sum.toNat + entry.2.toNat + (rest.map fun entry => entry.2.toNat).sum <
            UInt32.size := fun h => hfits (Nat.lt_of_le_of_lt (Nat.le_add_right _ _) h)
        rw [if_neg hfits, if_neg hover]
        rfl

/-- Weights can be added up exactly where their sum fits. -/
theorem addUp?_weights (t : VerbTable) : addUp? t.weights =
    if t.totalWeight < UInt32.size then some (UInt32.ofNat t.totalWeight) else none := by
  have hsum := addUp?_from t.weights 0
  rw [UInt32.toNat_zero, Nat.zero_add] at hsum
  rw [totalWeight_eq]
  exact hsum

/-! ### Draws -/

/-- An entry is picked by the draws between the sum of the weights before it and that sum with its own. -/
theorem pickWeighted_of_split (before behind : List (String × UInt32)) (name : String)
    (weight : UInt32) {draw : Nat} (hle : (before.map fun entry => entry.2.toNat).sum ≤ draw)
    (hlt : draw < (before.map fun entry => entry.2.toNat).sum + weight.toNat) :
    pickWeighted (before ++ (name, weight) :: behind) draw = some name := by
  induction before generalizing draw with
  | nil => exact if_pos (by simpa using hlt)
  | cons entry rest ih =>
      rw [List.map_cons, List.sum_cons] at hle hlt
      have hpassed : ¬draw < entry.2.toNat := by omega
      rw [List.cons_append, pickWeighted, if_neg hpassed]
      exact ih (by omega) (by omega)

theorem exists_pickWeighted {weights : List (String × UInt32)} {draw : Nat}
    (h : draw < (weights.map fun entry => entry.2.toNat).sum) :
    ∃ entry ∈ weights, pickWeighted weights draw = some entry.1 := by
  induction weights generalizing draw with
  | nil => exact absurd h (Nat.not_lt_zero draw)
  | cons first rest ih =>
      rw [List.map_cons, List.sum_cons] at h
      by_cases hfirst : draw < first.2.toNat
      · exact ⟨first, List.mem_cons_self .., if_pos hfirst⟩
      · have hbehind : draw - first.2.toNat < (rest.map fun entry => entry.2.toNat).sum := by omega
        obtain ⟨entry, hentry, hpick⟩ := ih hbehind
        exact ⟨entry, List.mem_cons_of_mem _ hentry, (if_neg hfirst).trans hpick⟩

variable {t : VerbTable}

theorem pick?_of_weights (hweights : t.weights ≠ []) (hfits : t.totalWeight < UInt32.size)
    (draw : Nat) : t.pick? draw = (pickWeighted t.weights draw).bind t.get? := by
  have hsome : ¬t.weights.isEmpty = true := mt List.isEmpty_iff.mp hweights
  rw [pick?, if_neg hsome, addUp?_weights, if_pos hfits]
  rfl

theorem pick?_of_overflow (hover : UInt32.size ≤ t.totalWeight) (draw : Nat) :
    t.pick? draw = none := by
  have hsome : ¬t.weights.isEmpty = true := by
    intro hempty
    rw [totalWeight_eq, List.isEmpty_iff.mp hempty] at hover
    exact absurd hover (by decide)
  rw [pick?, if_neg hsome, addUp?_weights, if_neg (Nat.not_lt.mpr hover)]
  rfl

theorem pickBound_of_weights (hweights : t.weights ≠ []) : t.pickBound = t.totalWeight :=
  if_neg (mt List.isEmpty_iff.mp hweights)

end VerbTable

namespace Declarations

open VerbTable

variable {profile : String} {declared : List Declaration} {t : VerbTable}

/-! ### Tables -/

/-- Names are replaced by those of their verbs, and every weight stays as it is. -/
theorem shares_of_checkWeights {names : List String} {synonyms : List (String × String)}
    {given weights : List (String × UInt32)} (h : checkWeights names synonyms given = .ok weights) :
    weights.map (·.2) = given.map (·.2) := by
  induction given generalizing weights with
  | nil =>
      cases h
      rfl
  | cons entry rest ih =>
      obtain ⟨name, others, -, hrest, rfl⟩ := checkWeights_cons_eq_ok.mp h
      exact congrArg (entry.2 :: ·) (ih hrest)

theorem sum_shares (declared : List Declaration) :
    ((declared.filterMap Declaration.weight?).map fun entry => entry.2.toNat).sum =
      (declared.map Declaration.share).sum := by
  induction declared with
  | nil => rfl
  | cons declaration rest ih =>
      rw [List.map_cons, List.sum_cons, ← ih, List.filterMap_cons]
      cases declaration with
      | verb v => exact (Nat.zero_add _).symm
      | synonym word target => exact (Nat.zero_add _).symm
      | weight word share =>
          by_cases hshare : 0 < share
          · rw [Declaration.weight?, if_pos hshare]
            rfl
          · have hzero : share = 0 := UInt32.le_zero_iff.mp (UInt32.not_lt.mp hshare)
            rw [Declaration.weight?, if_neg hshare, hzero]
            exact (Nat.zero_add _).symm

/-- The weights of a table come to what was declared. -/
theorem totalWeight_of_build (h : (ofList profile declared).build = .ok t) :
    t.totalWeight = (declared.map Declaration.share).sum := by
  obtain ⟨-, -, -, hweights⟩ := build_eq_ok_iff.mp h
  have hshares := congrArg (List.map UInt32.toNat) (shares_of_checkWeights hweights)
  rw [List.map_map, List.map_map] at hshares
  calc t.totalWeight
      = (t.weights.map (UInt32.toNat ∘ Prod.snd)).sum := t.totalWeight_eq
    _ = ((declared.filterMap Declaration.weight?).map (UInt32.toNat ∘ Prod.snd)).sum := by
        rw [hshares]
    _ = (declared.map Declaration.share).sum := sum_shares declared

/-- A verb with a weight is picked by some draw. -/
theorem exists_draw (hsound : Sound declared t) (hfits : t.totalWeight < UInt32.size)
    {entry : String × UInt32} (hentry : entry ∈ t.weights) :
    ∃ v ∈ t.verbs, v.name = entry.1 ∧ ∃ draw < t.pickBound, t.pick? draw = some v := by
  obtain ⟨hpositive, v, hv, hname⟩ := hsound.weighs entry hentry
  have hweights : t.weights ≠ [] := List.ne_nil_of_mem hentry
  obtain ⟨before, behind, hsplit⟩ := List.append_of_mem hentry
  have hweight : 0 < entry.2.toNat := UInt32.lt_iff_toNat_lt.mp hpositive
  have htotal := t.totalWeight_eq
  rw [hsplit, List.map_append, List.sum_append, List.map_cons, List.sum_cons] at htotal
  refine ⟨v, hv, hname, (before.map fun entry => entry.2.toNat).sum, ?_, ?_⟩
  · rw [pickBound_of_weights hweights]
    omega
  · have hpick := pickWeighted_of_split before behind entry.1 entry.2 (Nat.le_refl _)
      (Nat.lt_add_of_pos_right hweight)
    rw [pick?_of_weights hweights hfits, hsplit, hpick, ← hname]
    exact hsound.finds v hv

/-- Every draw picks a verb of a table that has one. -/
theorem pick?_of_sound (hsound : Sound declared t) (hfits : t.totalWeight < UInt32.size)
    (hverbs : t.verbs ≠ []) :
    0 < t.pickBound ∧ ∀ draw < t.pickBound, ∃ v ∈ t.verbs, t.pick? draw = some v := by
  by_cases hweights : t.weights = []
  · have hbound : t.pickBound = t.verbs.length := if_pos (List.isEmpty_iff.mpr hweights)
    rw [hbound]
    refine ⟨List.length_pos_iff.mpr hverbs, fun draw hdraw => ?_⟩
    have hpick : t.pick? draw = t.verbs[draw]? := if_pos (List.isEmpty_iff.mpr hweights)
    exact ⟨t.verbs[draw], List.getElem_mem hdraw, hpick.trans (List.getElem?_eq_getElem hdraw)⟩
  · constructor
    · obtain ⟨entry, hentry⟩ := List.exists_mem_of_ne_nil _ hweights
      obtain ⟨-, -, -, draw, hdraw, -⟩ := exists_draw hsound hfits hentry
      exact Nat.zero_lt_of_lt hdraw
    · intro draw hdraw
      rw [pickBound_of_weights hweights, totalWeight_eq] at hdraw
      obtain ⟨entry, hentry, hpick⟩ := exists_pickWeighted hdraw
      obtain ⟨-, v, hv, hname⟩ := hsound.weighs entry hentry
      refine ⟨v, hv, ?_⟩
      rw [pick?_of_weights hweights hfits, hpick, ← hname]
      exact hsound.finds v hv

/-- **Random picks.** Whatever a profile declares, the weights of its table can be added up exactly where
all that were declared fit in 32 bits together. Then every draw picks a verb of a table that has one, and
every verb with a weight is picked by some draw. -/
theorem random_picks (h : (ofList profile declared).build = .ok t) :
    let sum := (declared.map Declaration.share).sum
    addUp? t.weights = (if sum < UInt32.size then some (UInt32.ofNat sum) else none) ∧
      (sum < UInt32.size →
        (t.verbs ≠ [] →
          0 < t.pickBound ∧ ∀ draw < t.pickBound, ∃ v ∈ t.verbs, t.pick? draw = some v) ∧
        ∀ entry ∈ t.weights, ∃ v ∈ t.verbs, v.name = entry.1 ∧
          ∃ draw < t.pickBound, t.pick? draw = some v) := by
  intro sum
  have hsound := sound_of_build h
  have htotal : t.totalWeight = sum := totalWeight_of_build h
  rw [← htotal]
  refine ⟨t.addUp?_weights, fun hfits => ⟨pick?_of_sound hsound hfits, fun entry hentry => ?_⟩⟩
  exact exists_draw hsound hfits hentry

/-- A jump with a weight under a synonym, and a duck without one. -/
def jumpingOnly : List Declaration := leaping ++ [.verb { name := "duck", key := "b", defaultMs := 50 }]

theorem random_picks_jumpingOnly : ∃ t, (ofList "sample" jumpingOnly).build = .ok t ∧
    ∃ v ∈ t.verbs, v.name = "jump" ∧ ∃ draw < t.pickBound, t.pick? draw = some v := by
  have hbuild : (ofList "sample" jumpingOnly).build = .ok {
      profile := "sample"
      verbs := [{ name := "jump", key := "a", defaultMs := 250 },
        { name := "duck", key := "b", defaultMs := 50 }]
      synonyms := [("hop", "jump"), ("leap", "jump")]
      weights := [("jump", 3)] } := by
    decide +kernel
  obtain ⟨-, hpicked⟩ := (random_picks hbuild).2 (by decide)
  exact ⟨_, hbuild, hpicked ("jump", 3) (List.mem_singleton_self _)⟩

/-- A table is built although its weights do not fit in 32 bits together, and no draw picks its verb. -/
theorem built_beyond_sum : ∃ t, (ofList "t" [.verb { name := "a", key := "k", defaultMs := 100 },
      .weight "a" 4294967295, .weight "a" 1]).build = .ok t ∧
    t.verbs ≠ [] ∧ UInt32.size ≤ t.totalWeight ∧ addUp? t.weights = none ∧
      ∀ draw, t.pick? draw = none := by
  have hbuild : (ofList "t" [.verb { name := "a", key := "k", defaultMs := 100 },
      .weight "a" 4294967295, .weight "a" 1]).build = .ok {
        profile := "t"
        verbs := [{ name := "a", key := "k", defaultMs := 100 }]
        weights := [("a", 4294967295), ("a", 1)] } := by
    decide +kernel
  exact ⟨_, hbuild, List.cons_ne_nil _ _, by decide, by decide, pick?_of_overflow (by decide)⟩

end Declarations

end CrowdPad
