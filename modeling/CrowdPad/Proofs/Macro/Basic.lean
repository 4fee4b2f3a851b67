import CrowdPad.Macro.Table
import CrowdPad.Proofs.Orders
import CrowdPad.Proofs.Text.Case
import Mathlib

/-! Macros as they are made. The steps of a macro are what its verbs granted, so that they are granted
again whenever the macro is made from its own name and steps. That a macro is what these make is the
invariant behind everything that holds of macros. -/

namespace CrowdPad

/-! ### Names -/

/-- The characters of the names that macros are kept under. -/
def isNameChar (c : Char) : Bool := c.isLower || c.isDigit || c = '_'

/-- What can be the name that a macro is kept under. -/
structure IsMacroName (name : String) : Prop where
  ne_nil : name.toList ≠ []
  chars : ∀ c ∈ name.toList, isNameChar c

instance (name : String) : Decidable (IsMacroName name) :=
  decidable_of_iff (name.toList ≠ [] ∧ name.toList.all isNameChar)
    ⟨fun h => ⟨h.1, by simpa using h.2⟩, fun h => ⟨h.ne_nil, by simpa using h.chars⟩⟩

theorem isAscii_of_isMacroChar {c : Char} (h : isMacroChar c) : c.toNat < 0x80 := by
  simp only [isMacroChar, Char.isAlphanum, Char.isAlpha, Char.isUpper, Char.isLower, Char.isDigit,
    Bool.or_eq_true, Bool.and_eq_true, decide_eq_true_eq, UInt32.le_iff_toNat_le] at h
  rcases h with ((⟨-, h⟩ | ⟨-, h⟩) | ⟨-, h⟩) | rfl
  · exact Nat.lt_of_le_of_lt h (by decide)
  · exact Nat.lt_of_le_of_lt h (by decide)
  · exact Nat.lt_of_le_of_lt h (by decide)
  · decide

theorem isBlank_of_isMacroChar {c : Char} (h : isMacroChar c) : Text.isBlank c = false := by
  have hascii : c.toNat < 0x80 := isAscii_of_isMacroChar h
  have hlow : 0x20 < c.toNat := by
    simp only [isMacroChar, Char.isAlphanum, Char.isAlpha, Char.isUpper, Char.isLower, Char.isDigit,
      Bool.or_eq_true, Bool.and_eq_true, decide_eq_true_eq, UInt32.le_iff_toNat_le] at h
    rcases h with ((⟨h, -⟩ | ⟨h, -⟩) | ⟨h, -⟩) | rfl
    · exact Nat.lt_of_lt_of_le (by decide) h
    · exact Nat.lt_of_lt_of_le (by decide) h
    · exact Nat.lt_of_lt_of_le (by decide) h
    · decide
  simp only [Text.isBlank, Bool.or_eq_false_iff, Bool.and_eq_false_iff, decide_eq_false_iff_not,
    beq_eq_false_iff_ne]
  omega

theorem isNameChar_toLower {c : Char} (h : isMacroChar c) : isNameChar c.toLower := by
  by_cases hupper : c.isUpper
  · have hlower : c.toLower.isLower := by
      rw [Char.isLower_toLower_eq_isAlpha, Char.isAlpha, hupper, Bool.true_or]
    rw [isNameChar, hlower, Bool.true_or, Bool.true_or]
  · rw [Char.toLower_eq_of_not_isUpper hupper]
    simpa [isMacroChar, isNameChar, Char.isAlphanum, Char.isAlpha, hupper] using h

theorem isMacroChar_of_isNameChar {c : Char} (h : isNameChar c) : isMacroChar c := by
  simp only [isNameChar, isMacroChar, Char.isAlphanum, Char.isAlpha, Bool.or_eq_true] at h ⊢
  tauto

theorem toLower_of_isNameChar {c : Char} (h : isNameChar c) : c.toLower = c := by
  apply Char.toLower_eq_of_not_isUpper
  intro hupper
  have hlower := Char.not_isLower_of_isUpper hupper
  simp only [isNameChar, hlower, Char.isUpper, Char.isDigit, Bool.false_or, Bool.or_eq_true,
    Bool.and_eq_true, decide_eq_true_eq, UInt32.le_iff_toNat_le] at h hupper
  rcases h with ⟨-, hdigit⟩ | rfl
  · exact absurd (Nat.le_trans hupper.1 hdigit) (by decide)
  · exact absurd hupper (by decide)

namespace IsMacroName

variable {name : String}

/-- The name of a macro is in lower case. -/
theorem lower (h : IsMacroName name) : Text.lower name = name := by
  have hsame : name.toList.map Char.toLower = name.toList.map id :=
    List.map_congr_left fun c hc => toLower_of_isNameChar (h.chars c hc)
  rw [Text.lower_ascii fun c hc => isAscii_of_isMacroChar (isMacroChar_of_isNameChar (h.chars c hc)),
    hsame, List.map_id, String.ofList_toList]

theorem macroName (h : IsMacroName name) : macroName name = .ok name := by
  have hne : name.isEmpty = false := by simpa using h.ne_nil
  have hall : name.toList.all isMacroChar :=
    List.all_eq_true.mpr fun c hc => isMacroChar_of_isNameChar (h.chars c hc)
  rw [CrowdPad.macroName, hne, hall, h.lower]
  rfl

end IsMacroName

/-- A name that is accepted is kept in lower case. -/
theorem macroName_eq_ok {name key : String} (h : macroName name = .ok key) :
    key = Text.lower name ∧ IsMacroName key ∧ name.toList ≠ [] ∧ ∀ c ∈ name.toList, isMacroChar c := by
  unfold macroName at h
  split at h
  · rename_i hname
    cases h
    rw [Bool.and_eq_true, List.all_eq_true] at hname
    obtain ⟨hne, hchars⟩ := hname
    have hlower := Text.lower_ascii fun c hc => isAscii_of_isMacroChar (hchars c hc)
    have hne : name.toList ≠ [] := by simpa using hne
    refine ⟨rfl, ⟨?_, ?_⟩, hne, hchars⟩
    · simpa [hlower] using hne
    · intro c hc
      rw [hlower, String.toList_ofList] at hc
      obtain ⟨d, hd, rfl⟩ := List.mem_map.mp hc
      exact isNameChar_toLower (hchars d hd)
  · cases h

/-! ### Steps -/

namespace MacroStep

/-- When the step ends, however late that is. -/
def spanMs (step : MacroStep) : Nat := step.delayMs.toNat + step.durationMs.toNat

theorem endMs_toNat {step : MacroStep} (h : step.spanMs < UInt32.size) :
    step.endMs.toNat = step.spanMs := by
  have hfits : step.delayMs.toNat + step.durationMs.toNat < UInt32.size := h
  rw [endMs, if_pos hfits, UInt32.toNat_add]
  exact Nat.mod_eq_of_lt hfits

end MacroStep

theorem macroRequest_eq_ok {t : Timing} {v : Verb} {r : Request} (h : t.request v = .ok r) :
    macroRequest t v = .ok r := by
  rw [macroRequest, h]

theorem macroVerb_eq_ok {verbs : VerbTable} {verb : String} {v : Verb} (name : String)
    (h : verbs.get? verb = some v) : macroVerb verbs name verb = .ok v := by
  rw [macroVerb, h]

theorem get?_of_macroVerb {verbs : VerbTable} {name verb : String} {v : Verb}
    (h : macroVerb verbs name verb = .ok v) : verbs.get? verb = some v := by
  unfold macroVerb at h
  split at h
  · rename_i found hget
    cases h
    exact hget
  · cases h

namespace Macro

variable {verbs : VerbTable} {limits : MacroLimits} {name : String} {step : MacroStep}
  {steps : List MacroStep} {m : Macro}

/-- What is clamped is for a verb of the table, which grants the step that comes out. -/
theorem clampStep_eq_ok {clamped : MacroStep} (h : clampStep verbs name step = .ok clamped) :
    ∃ r : Request, r.Stands verbs ∧ verbs.get? step.verb = some r.verb ∧
      clamped = MacroStep.ofRequest r := by
  obtain ⟨v, hverb, h⟩ := exists_of_bind_eq_ok h
  obtain ⟨r, hr, h⟩ := exists_of_bind_eq_ok h
  cases h
  have hget := get?_of_macroVerb hverb
  obtain ⟨rfl, -⟩ := Timing.request_eq_ok (request_of_macroRequest hr)
  refine ⟨r, stands_of_macroRequest (VerbTable.mem_of_get? hget) hr, hget, ?_⟩
  rw [MacroStep.ofRequest, VerbTable.name_of_get? hget]

/-- A step that a verb granted is clamped to itself. -/
theorem clampStep_ofRequest (hdistinct : verbs.Distinct) {r : Request} (hr : r.Stands verbs)
    (name : String) : clampStep verbs name (.ofRequest r) = .ok (.ofRequest r) := by
  have hverb : macroVerb verbs name r.verb.name = .ok r.verb :=
    macroVerb_eq_ok name (hdistinct.get?_name hr.mem)
  have hrequest : macroRequest r.timing r.verb = .ok r := macroRequest_eq_ok hr.again
  exact (bind_of_eq_ok hverb _).trans (bind_of_eq_ok hrequest _)

theorem clampStep_again (hdistinct : verbs.Distinct) {clamped : MacroStep}
    (h : clampStep verbs name step = .ok clamped) (other : String) :
    clampStep verbs other clamped = .ok clamped := by
  obtain ⟨r, hr, -, rfl⟩ := clampStep_eq_ok h
  exact clampStep_ofRequest hdistinct hr other

/-! ### Macros -/

/-- What is checked of clamped steps when they become a macro. -/
theorem ofClamped_eq_ok (h : ofClamped name steps limits = .ok m) :
    m.name = name ∧ m.steps = steps ∧ steps ≠ [] ∧ steps.length ≤ limits.maxSteps ∧
      (steps.map MacroStep.endMs).min? = some m.minTime ∧
      (steps.map MacroStep.endMs).max? = some m.maxTime ∧ m.maxTime ≤ limits.ceilingMs := by
  unfold ofClamped at h
  simp only at h
  cases steps with
  | nil => cases h
  | cons first rest =>
      rw [if_neg (by simp)] at h
      split at h
      · cases h
      · split at h
        · cases h
        · rename_i hlength hceiling
          cases h
          exact ⟨rfl, rfl, List.cons_ne_nil _ _, Nat.not_lt.mp hlength, rfl, rfl,
            UInt32.not_lt.mp hceiling⟩

/-- Whether a macro is what its name and its steps make. -/
def Made (verbs : VerbTable) (limits : MacroLimits) (m : Macro) : Prop :=
  ofSteps verbs limits m.name m.steps = .ok m

theorem made_of_ofClamped (hname : IsMacroName name)
    (hsteps : ∀ step ∈ steps, clampStep verbs name step = .ok step)
    (h : ofClamped name steps limits = .ok m) : m.Made verbs limits := by
  obtain ⟨rfl, rfl, -⟩ := ofClamped_eq_ok h
  have hclamped : m.steps.mapM (clampStep verbs m.name) = .ok m.steps := mapM_eq_ok_self hsteps
  calc ofSteps verbs limits m.name m.steps
      = m.steps.mapM (clampStep verbs m.name) >>= fun steps => ofClamped m.name steps limits :=
        bind_of_eq_ok hname.macroName _
    _ = ofClamped m.name m.steps limits := bind_of_eq_ok hclamped _
    _ = .ok m := h

theorem made_of_ofSteps (hdistinct : verbs.Distinct) (h : ofSteps verbs limits name steps = .ok m) :
    m.Made verbs limits := by
  obtain ⟨key, hkey, h⟩ := exists_of_bind_eq_ok h
  obtain ⟨clamped, hclamped, h⟩ := exists_of_bind_eq_ok h
  obtain ⟨-, hname, -⟩ := macroName_eq_ok hkey
  refine made_of_ofClamped hname (fun step hstep => ?_) h
  obtain ⟨_, -, hstep⟩ := mem_of_mapM_eq_ok hclamped hstep
  exact clampStep_again hdistinct hstep key

/-- What a body is compiled to: the requests of its commands, as they are granted. -/
theorem compile_eq_ok {g : Grammar} {macros : MacroTable} {body : String}
    (h : compile g verbs macros limits name body = .ok m) :
    ∃ key parts, macroName name = .ok key ∧
      (g.parseBody (meaning? verbs macros) body).malformed = [] ∧
      (g.parseBody (meaning? verbs macros) body).unknown = [] ∧
      (g.parseBody (meaning? verbs macros) body).commands.mapM (Command.requests verbs macros) =
        .ok parts ∧
      ofClamped key (parts.flatten.map MacroStep.ofRequest) limits = .ok m := by
  obtain ⟨key, hkey, h⟩ := exists_of_bind_eq_ok h
  simp only at h
  split at h
  · cases h
  · cases h
  · rename_i hmalformed hunknown
    obtain ⟨parts, hparts, h⟩ := exists_of_bind_eq_ok h
    exact ⟨key, parts, hkey, hmalformed, hunknown, hparts, h⟩

theorem name_of_compile {g : Grammar} {macros : MacroTable} {body : String}
    (h : compile g verbs macros limits name body = .ok m) : m.name = Text.lower name := by
  obtain ⟨key, parts, hkey, -, -, -, h⟩ := compile_eq_ok h
  exact (ofClamped_eq_ok h).1.trans (macroName_eq_ok hkey).1

theorem stands_of_parseBody {g : Grammar} {macros : MacroTable} {body : String}
    {parts : List (List Request)}
    (h : (g.parseBody (meaning? verbs macros) body).commands.mapM (Command.requests verbs macros) =
      .ok parts) : ∀ r ∈ parts.flatten, r.Stands verbs := by
  intro r hr
  obtain ⟨part, hpart, hr⟩ := List.mem_flatten.mp hr
  obtain ⟨command, hcommand, hmade⟩ := mem_of_mapM_eq_ok h hpart
  exact Grammar.stands_of_scan hcommand hmade r hr

/-- Whatever macros a body invokes, and with whatever timing, it makes a macro. -/
theorem made_of_compile (hdistinct : verbs.Distinct) {g : Grammar} {macros : MacroTable}
    {body : String} (h : compile g verbs macros limits name body = .ok m) :
    m.Made verbs limits := by
  obtain ⟨key, parts, hkey, -, -, hparts, h⟩ := compile_eq_ok h
  obtain ⟨-, hname, -⟩ := macroName_eq_ok hkey
  refine made_of_ofClamped hname (fun step hstep => ?_) h
  obtain ⟨r, hr, rfl⟩ := List.mem_map.mp hstep
  exact clampStep_ofRequest hdistinct (stands_of_parseBody hparts r hr) key

end Macro

end CrowdPad
