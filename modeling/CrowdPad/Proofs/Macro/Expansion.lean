import CrowdPad.Proofs.Macro.Table

/-! What invoking a macro asks for. A macro of a table can be invoked with any timing that a message
can hold; invoked without timing, it asks for the very requests that it was compiled from. -/

namespace CrowdPad

namespace Macro

variable {verbs : VerbTable} {limits : MacroLimits} {m : Macro} {step : MacroStep}
  {invocation : Timing}

/-- How long a step of an invocation is to be held: a duration of the invocation replaces that of the
first step. -/
def invokedMs (m : Macro) (invocation : Timing) (step : MacroStep) : Int :=
  match invocation.duration with
  | some ms =>
    max (ms + step.durationMs.toNat - ((m.steps.head?.map MacroStep.durationMs).getD 0).toNat) 0
  | none => step.durationMs.toNat

/-- No time that a step and a message can hold leads out of 64 bits. -/
theorem stepRequest_of_fits (hfits : invocation.Fits) {v : Verb}
    (hget : verbs.get? step.verb = some v) :
    m.stepRequest verbs invocation step =
      macroRequest { delay := invocation.delay + step.delayMs.toNat
                     duration := some (m.invokedMs invocation step) } v := by
  have hsize : (UInt32.size : Int) = 4294967296 := rfl
  have hdelayMs := step.delayMs.toNat_lt
  have hownMs := step.durationMs.toNat_lt
  have hfirstMs := ((m.steps.head?.map MacroStep.durationMs).getD 0).toNat_lt
  have hdelay : wrap64 (invocation.delay + step.delayMs.toNat) =
      invocation.delay + step.delayMs.toNat := by
    obtain ⟨hlow, hhigh⟩ := hfits.delay
    exact wrap64_eq_self (by omega) (by omega)
  refine (bind_of_eq_ok (macroVerb_eq_ok m.name hget) _).trans ?_
  rw [hdelay]
  cases hduration : invocation.duration with
  | none => simp only [invokedMs, hduration]
  | some ms =>
      obtain ⟨hlow, hhigh⟩ := hfits.duration ms hduration
      simp only [invokedMs, hduration]
      rw [wrap64_eq_self (by omega) (by omega)]

theorem invokedMs_nonneg (m : Macro) (invocation : Timing) (step : MacroStep) :
    0 ≤ m.invokedMs invocation step := by
  unfold invokedMs
  split
  · exact le_max_right _ _
  · exact Int.natCast_nonneg _

theorem expand_of_fits (hfits : invocation.Fits) :
    m.expand verbs invocation = m.steps.mapM (m.stepRequest verbs invocation) := by
  have hduration : 0 ≤ invocation.duration.getD 0 := by
    cases hms : invocation.duration with
    | none => exact Int.le_refl 0
    | some ms => exact (hfits.duration ms hms).1
  rw [expand, if_neg (Int.not_lt.mpr hfits.delay.1), if_neg (Int.not_lt.mpr hduration)]

/-- However a macro of a table is invoked in a message, there is a request for each of its steps. -/
theorem Made.exists_expand (h : m.Made verbs limits) (hfits : invocation.Fits) :
    ∃ requests, m.expand verbs invocation = .ok requests ∧ requests.length = m.steps.length := by
  rw [expand_of_fits hfits]
  refine exists_mapM_eq_ok fun step hstep => ?_
  obtain ⟨granted, -, hget, -⟩ := clampStep_eq_ok (h.steps_clamped step hstep)
  obtain ⟨r, hr⟩ := Timing.request_of_nonneg (t := {
      delay := invocation.delay + step.delayMs.toNat
      duration := some (m.invokedMs invocation step) }) granted.verb
    (Int.add_nonneg hfits.delay.1 (Int.natCast_nonneg _)) (m.invokedMs_nonneg invocation step)
  exact ⟨r, (stepRequest_of_fits hfits hget).trans (macroRequest_eq_ok hr)⟩

/-- What its verbs granted when a macro was made is what it asks for. -/
theorem expand_ofRequests (hdistinct : verbs.Distinct) {requests : List Request}
    (hsteps : m.steps = requests.map MacroStep.ofRequest) (hstands : ∀ r ∈ requests, r.Stands verbs) :
    m.expand verbs {} = .ok requests := by
  rw [expand_of_fits Timing.fits_empty, hsteps, mapM_eq_ok_iff, List.forall₂_map_left_iff,
    List.forall₂_same]
  intro r hr
  have hget : verbs.get? (MacroStep.ofRequest r).verb = some r.verb :=
    hdistinct.get?_name (hstands r hr).mem
  have hzero : (0 : Int) + r.delayMs.toNat = r.delayMs.toNat := Int.zero_add _
  refine (stepRequest_of_fits Timing.fits_empty hget).trans ?_
  show macroRequest { delay := 0 + r.delayMs.toNat, duration := r.timing.duration } r.verb = .ok r
  rw [hzero]
  exact macroRequest_eq_ok (hstands r hr).again

end Macro

namespace MacroTable

variable {verbs : VerbTable} {limits : MacroLimits} {t t' : MacroTable} {m : Macro} {word : String}

theorem mem_of_get? (h : t.get? word = some m) : (Text.lower word, m) ∈ t.entries :=
  mem_of_lookup h

/-- A macro that a word names is also found under its own name. -/
theorem Made.get?_name (h : t.Made verbs limits) (hget : t.get? word = some m) :
    t.get? m.name = some m := by
  have hkey : Text.lower word = m.name := h.named _ (mem_of_get? hget)
  have hname := (h.made _ (mem_of_get? hget)).wellMade.name
  rw [get?, hname.lower, ← hkey]
  exact hget

/-- The macros of a table are found as before when one is added. -/
theorem get?_of_add (hadd : t.add m = .ok t') {found : Macro} (hget : t.get? word = some found) :
    t'.get? word = some found := by
  obtain ⟨-, hentries⟩ := add_eq_ok hadd
  rw [get?] at hget
  rw [get?, hentries, List.lookup_append, hget]
  rfl

theorem get?_name_of_add (hadd : t.add m = .ok t') (hname : IsMacroName m.name) :
    t'.get? m.name = some m := by
  obtain ⟨hnew, hentries⟩ := add_eq_ok hadd
  have hnone : t.entries.lookup m.name = none := lookup_eq_none_iff_not_mem_keys.mpr hnew
  rw [get?, hname.lower, hentries, List.lookup_append, hnone]
  simp

end MacroTable

end CrowdPad
