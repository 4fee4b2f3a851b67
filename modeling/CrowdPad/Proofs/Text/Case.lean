import CrowdPad.Text.Case
import Mathlib

/-! Lower case of texts. ASCII text is lower-cased letter by letter, and lower-casing any text a second
time changes nothing. -/

namespace CrowdPad.Text

/-- Whether the characters of a text are all ASCII. -/
def IsAscii (cs : List Char) : Prop := ∀ c ∈ cs, c.toNat < 0x80

theorem lowerAfter_ascii (before : List Char) {cs : List Char} (h : IsAscii cs) :
    lowerAfter before cs = cs.map Char.toLower := by
  induction cs generalizing before with
  | nil => rfl
  | cons c rest ih =>
      have hc : c.toNat < 0x80 := h c (List.mem_cons_self ..)
      have hrest := ih (c :: before) fun d hd => h d (List.mem_cons_of_mem _ hd)
      have hsigma : c ≠ 'Σ' := by
        rintro rfl
        exact absurd hc (by decide)
      have hdotted : c ≠ 'İ' := by
        rintro rfl
        exact absurd hc (by decide)
      rw [lowerAfter, hrest, if_neg hsigma, if_neg hdotted, lowerChar, if_pos hc]
      rfl

theorem lower_ascii {s : String} (h : IsAscii s.toList) :
    lower s = String.ofList (s.toList.map Char.toLower) := by
  rw [lower, lowerAfter_ascii [] h]

/-! ### Lower-casing twice -/

section Runs

/-- What the first letter of a run is lower-cased to. -/
def firstImage (run : Nat × Nat × Nat × Int) : Nat := Int.toNat (run.1 + run.2.2.2)

/-- What the last letter of a run is lower-cased to. -/
def lastImage (run : Nat × Nat × Nat × Int) : Nat := Int.toNat (run.2.1 + run.2.2.2)

/-- Whether a letter is in a run. -/
def InRun (run : Nat × Nat × Nat × Int) (n : Nat) : Prop :=
  run.1 ≤ n ∧ n ≤ run.2.1 ∧ (n - run.1) % run.2.2.1 = 0

/-- Whether what a run leads to is in front of another run, behind it, or between its letters. -/
def leadsPast (run other : Nat × Nat × Nat × Int) : Bool :=
  Nat.blt (lastImage run) other.1 || Nat.blt other.2.1 (firstImage run) ||
    (Nat.beq other.2.2.1 2 && Nat.beq ((firstImage run + other.1) % 2) 1 &&
      (Nat.beq run.2.2.1 2 || Nat.beq (firstImage run) (lastImage run)))

/-- Whether what a run leads to are characters, but neither capitals of ASCII nor the dotted capital. -/
def leadsToLetters (run : Nat × Nat × Nat × Int) : Bool :=
  (Nat.blt (lastImage run) 0xD800 ||
      Nat.blt 0xDFFF (firstImage run) && Nat.blt (lastImage run) 0x110000) &&
    (Nat.blt (lastImage run) 0x130 || Nat.blt 0x130 (firstImage run)) &&
    (Nat.blt 0x7F (firstImage run) || Nat.blt 0x5A (firstImage run) && Nat.blt (lastImage run) 0x80)

/-- No letter that has a lower-case form is the lower-case form of another. -/
theorem all_leadsPast :
    (lowerRuns.all fun run => leadsToLetters run && lowerRuns.all (leadsPast run)) = true := by
  decide +kernel

variable {run other : Nat × Nat × Nat × Int} {n : Nat}

theorem firstImage_le (h : InRun run n) : firstImage run ≤ Int.toNat (n + run.2.2.2) := by
  have hlow := h.1
  unfold firstImage
  omega

theorem le_lastImage (h : InRun run n) : Int.toNat (n + run.2.2.2) ≤ lastImage run := by
  have hhigh := h.2.1
  unfold lastImage
  omega

theorem not_inRun_image (h : InRun run n) (hpositive : 0 < firstImage run)
    (hpast : leadsPast run other) : ¬InRun other (Int.toNat (n + run.2.2.2)) := by
  obtain ⟨lo, hi, step, offset⟩ := run
  obtain ⟨lo', hi', step', offset'⟩ := other
  rintro ⟨hlow', hhigh', hstep'⟩
  have hfirst := firstImage_le h
  have hlast := le_lastImage h
  obtain ⟨hlow, hhigh, hstep⟩ := h
  simp only [leadsPast, Bool.or_eq_true, Bool.and_eq_true, Nat.blt_eq, Nat.beq_eq] at hpast
  simp only at hlow hhigh hstep hlow' hhigh' hstep' hfirst hlast
  obtain (hfront | hbehind) | ⟨⟨rfl, hodd⟩, hsame⟩ := hpast
  · omega
  · omega
  · -- the image is as far from the first one as the letter is from the first letter
    have heven : (Int.toNat (n + offset) - firstImage (lo, hi, step, offset)) % 2 = 0 := by
      rcases hsame with rfl | hsame
      · unfold firstImage at hpositive ⊢
        simp only at hpositive ⊢
        omega
      · omega
    omega

end Runs

/-- Whether lower-casing leaves a character as it is. -/
def IsLowered (c : Char) : Prop := c ≠ 'İ' ∧ lowerChar c = c

instance : DecidablePred IsLowered := fun c =>
  inferInstanceAs (Decidable (c ≠ 'İ' ∧ lowerChar c = c))

theorem toNat_toLower_lt {c : Char} (h : c.toNat < 0x80) : c.toLower.toNat < 0x80 := by
  have hall : ∀ n < 0x80, (Char.ofNat n).toLower.toNat < 0x80 := by decide
  simpa using hall c.toNat h

theorem isLowered_of_ascii {c : Char} (h : c.toNat < 0x80) (hupper : ¬c.isUpper) : IsLowered c := by
  constructor
  · rintro rfl
    exact absurd h (by decide)
  · rw [lowerChar, if_pos h, Char.toLower_eq_of_not_isUpper hupper]

theorem isLowered_of_not_inRun {c : Char} (hdotted : c ≠ 'İ') (hascii : ¬c.toNat < 0x80)
    (h : ∀ run ∈ lowerRuns, ¬InRun run c.toNat) : IsLowered c := by
  have hnone : (lowerRuns.find? fun run =>
      run.1 ≤ c.toNat && c.toNat ≤ run.2.1 && (c.toNat - run.1) % run.2.2.1 == 0) = none := by
    refine List.find?_eq_none.mpr fun run hrun hin => h run hrun ?_
    simpa [InRun, and_assoc] using hin
  exact ⟨hdotted, by rw [lowerChar, if_neg hascii, hnone]⟩

theorem isLowered_lowerChar {c : Char} (hdotted : c ≠ 'İ') : IsLowered (lowerChar c) := by
  by_cases hascii : c.toNat < 0x80
  · rw [lowerChar, if_pos hascii]
    exact isLowered_of_ascii (toNat_toLower_lt hascii) (by simp [Char.isUpper_toLower_eq_false])
  rw [lowerChar, if_neg hascii]
  split
  · rename_i run hfound
    have hin : InRun run c.toNat := by
      simpa [InRun, and_assoc] using List.find?_some hfound
    have hchecked := List.all_eq_true.mp all_leadsPast run (List.mem_of_find?_eq_some hfound)
    obtain ⟨hletters, hpast⟩ := Bool.and_eq_true_iff.mp hchecked
    have hfirst := firstImage_le hin
    have hlast := le_lastImage hin
    simp only [leadsToLetters, Bool.and_eq_true, Bool.or_eq_true, Nat.blt_eq] at hletters
    obtain ⟨⟨hvalid, hundotted⟩, hplain⟩ := hletters
    generalize himage : Int.toNat (c.toNat + run.2.2.2) = image at hfirst hlast
    have htoNat : (Char.ofNat image).toNat = image := by
      rw [Char.toNat_ofNat, if_pos]
      simp only [Nat.isValidChar]
      omega
    by_cases hlow : image < 0x80
    · refine isLowered_of_ascii (htoNat.symm ▸ hlow) ?_
      intro hupper
      simp only [Char.isUpper, decide_eq_true_eq, ge_iff_le, UInt32.le_iff_toNat_le] at hupper
      have hnotA : 0x41 ≤ (Char.ofNat image).toNat ∧ (Char.ofNat image).toNat ≤ 0x5A := hupper
      omega
    · refine isLowered_of_not_inRun ?_ (htoNat.symm ▸ hlow) fun other hother => ?_
      · intro hdotted
        rw [hdotted] at htoNat
        have hcode : Char.toNat 'İ' = 0x130 := rfl
        omega
      · rw [htoNat, ← himage]
        exact not_inRun_image hin (by omega) (List.all_eq_true.mp hpast other hother)
  · rename_i hnone
    refine ⟨hdotted, ?_⟩
    rw [lowerChar, if_neg hascii, hnone]

theorem isLowered_of_mem_lowerAfter {before cs : List Char} {c : Char}
    (h : c ∈ lowerAfter before cs) : IsLowered c := by
  induction cs generalizing before with
  | nil => cases h
  | cons first rest ih =>
      rcases List.mem_append.mp h with himage | hrest
      · split at himage
        · rw [List.mem_singleton.mp himage]
          split <;> decide +kernel
        · split at himage
          · simp only [List.mem_cons, List.not_mem_nil, or_false] at himage
            rcases himage with rfl | rfl
            · decide +kernel
            · decide +kernel
          · rename_i hdotted
            rw [List.mem_singleton.mp himage]
            exact isLowered_lowerChar hdotted
      · exact ih hrest

/-- What is in lower case stays as it is. -/
theorem lowerAfter_of_isLowered (before : List Char) {cs : List Char} (h : ∀ c ∈ cs, IsLowered c) :
    lowerAfter before cs = cs := by
  induction cs generalizing before with
  | nil => rfl
  | cons c rest ih =>
      obtain ⟨⟨hdotted, hlower⟩, hrest⟩ := List.forall_mem_cons.mp h
      have hsigma : c ≠ 'Σ' := by
        rintro rfl
        exact absurd hlower (by decide +kernel)
      rw [lowerAfter, ih _ hrest, if_neg hsigma, if_neg hdotted, hlower]
      rfl

/-- Lower-casing a second time changes nothing. -/
theorem lower_lower (s : String) : lower (lower s) = lower s := by
  rw [lower, lower, String.toList_ofList,
    lowerAfter_of_isLowered [] fun _ => isLowered_of_mem_lowerAfter]

end CrowdPad.Text
