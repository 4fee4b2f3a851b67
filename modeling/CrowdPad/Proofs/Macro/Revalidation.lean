import CrowdPad.Proofs.Macro.File
import CrowdPad.Proofs.Team.Translation

/-! Stored macros checked again. Which of them a table takes is told by their names and steps alone, and
by the names taken before; each of the others is refused with one error that says what is wrong with it.
What a table has taken it takes again as it is. -/

namespace CrowdPad

/-- The step with the duration that its verb grants it. -/
def VerbTable.clamp (verbs : VerbTable) (step : MacroStep) : MacroStep :=
  match verbs.get? step.verb with
  | some v => { step with durationMs := v.grant step.delayMs step.durationMs }
  | none => step

/-- Whether a name is that of a verb of the table, letter by letter. -/
def VerbTable.Knows (verbs : VerbTable) (name : String) : Prop := ∃ v ∈ verbs.verbs, v.name = name

namespace VerbTable

variable {verbs : VerbTable} {name : String}

theorem Knows.exists_get? (h : verbs.Knows name) : ∃ v, verbs.get? name = some v := by
  obtain ⟨v, hv, rfl⟩ := h
  refine Option.isSome_iff_exists.mp (List.find?_isSome.mpr ⟨v, hv, ?_⟩)
  exact beq_self_eq_true v.name

theorem get?_eq_none (h : ¬verbs.Knows name) : verbs.get? name = none :=
  List.find?_eq_none.mpr fun v hv hname => h ⟨v, hv, beq_iff_eq.mp hname⟩

end VerbTable

namespace Macro

variable {verbs : VerbTable} {limits : MacroLimits} {name : String} {step : MacroStep}
  {steps : List MacroStep} {error : MacroError}

/-- Whether a name is one of ASCII letters, digits and underscores. -/
def IsPlainName (name : String) : Prop := name.toList ≠ [] ∧ ∀ c ∈ name.toList, isMacroChar c

/-- Whether stored steps can be taken for a macro of this name. -/
structure Acceptable (verbs : VerbTable) (limits : MacroLimits) (name : String)
    (steps : List MacroStep) : Prop where
  name : IsPlainName name
  known : ∀ step ∈ steps, verbs.Knows step.verb
  nonempty : 1 ≤ steps.length
  length : steps.length ≤ limits.maxSteps
  ceiling : ∀ step ∈ steps, (verbs.clamp step).spanMs ≤ limits.ceilingMs.toNat

/-- Why stored steps are refused. What comes first in this list is reported first; that the name is taken
is reported of what could be taken under another name. -/
inductive Refusal (verbs : VerbTable) (limits : MacroLimits) (name : String)
    (steps : List MacroStep) : MacroError → Prop where
  | invalidName (h : ¬IsPlainName name) : Refusal verbs limits name steps (.invalidName name)
  | unknownVerb (hname : IsPlainName name) {before behind : List MacroStep} {step : MacroStep}
      (hsplit : steps = before ++ step :: behind) (hbefore : ∀ step ∈ before, verbs.Knows step.verb)
      (h : ¬verbs.Knows step.verb) :
      Refusal verbs limits name steps (.unknownVerb (Text.lower name) step.verb)
  | empty (hname : IsPlainName name) (h : steps = []) :
      Refusal verbs limits name steps (.empty (Text.lower name))
  | tooManySteps (hname : IsPlainName name) (hknown : ∀ step ∈ steps, verbs.Knows step.verb)
      (h : limits.maxSteps < steps.length) :
      Refusal verbs limits name steps
        (.tooManySteps (Text.lower name) steps.length limits.maxSteps)
  | exceedsBounds (hname : IsPlainName name) (hknown : ∀ step ∈ steps, verbs.Knows step.verb)
      (hlength : steps.length ≤ limits.maxSteps) {latest : UInt32}
      (hlatest : IsGreatest {ms | ∃ step ∈ steps, (verbs.clamp step).spanMs = ms} latest.toNat)
      (h : limits.ceilingMs < latest) :
      Refusal verbs limits name steps (.exceedsBounds (Text.lower name) latest limits.ceilingMs)
  | alreadyExists (h : Acceptable verbs limits name steps) :
      Refusal verbs limits name steps (.alreadyExists (Text.lower name))

/-! ### Steps -/

theorem macroName_of_isPlainName (h : IsPlainName name) : macroName name = .ok (Text.lower name) := by
  have hne : name.isEmpty = false := by simpa using h.1
  rw [macroName, hne, List.all_eq_true.mpr h.2]
  rfl

theorem macroName_of_not_isPlainName (h : ¬IsPlainName name) :
    macroName name = .error (.invalidName name) := by
  rw [macroName, if_neg]
  intro hname
  rw [Bool.and_eq_true, List.all_eq_true] at hname
  exact h ⟨by simpa using hname.1, hname.2⟩

theorem clampStep_of_knows (h : verbs.Knows step.verb) (name : String) :
    clampStep verbs name step = .ok (verbs.clamp step) := by
  obtain ⟨v, hget⟩ := h.exists_get?
  have hrequest : macroRequest step.timing v = .ok {
      verb := v, delayMs := step.delayMs, durationMs := v.grant step.delayMs step.durationMs } := by
    refine macroRequest_eq_ok ?_
    rw [Timing.request, if_neg (by simp [MacroStep.timing]), if_neg (by simp [MacroStep.timing])]
    simp only [MacroStep.timing, saturate_toNat]
  refine (bind_of_eq_ok (macroVerb_eq_ok name hget) _).trans ?_
  refine (bind_of_eq_ok hrequest _).trans ?_
  rw [VerbTable.clamp, hget]
  rfl

theorem clampStep_of_not_knows (h : ¬verbs.Knows step.verb) (name : String) :
    clampStep verbs name step = .error (.unknownVerb name step.verb) := by
  have hverb : macroVerb verbs name step.verb = .error (.unknownVerb name step.verb) := by
    rw [macroVerb, VerbTable.get?_eq_none h]
  exact bind_of_eq_error hverb _

section

variable (hknown : ∀ step ∈ steps, verbs.Knows step.verb)

include hknown

theorem mapM_clampStep (name : String) :
    steps.mapM (clampStep verbs name) = .ok (steps.map verbs.clamp) := by
  rw [mapM_eq_ok_iff, List.forall₂_map_right_iff, List.forall₂_same]
  exact fun step hstep => clampStep_of_knows (hknown step hstep) name

/-- No clamped step ends too late for 32 bits. -/
theorem spanMs_clamp : ∀ step ∈ steps.map verbs.clamp, step.spanMs < UInt32.size := by
  intro clamped hclamped
  obtain ⟨step, hstep, rfl⟩ := List.mem_map.mp hclamped
  obtain ⟨r, hr, -, hclamp⟩ := clampStep_eq_ok (clampStep_of_knows (hknown step hstep) "")
  rw [hclamp]
  exact spanMs_ofRequest hr

/-- The latest end of clamped steps, which is what their bound is compared with. -/
theorem exists_latest (hne : steps ≠ []) : ∃ latest,
    ((steps.map verbs.clamp).map MacroStep.endMs).max? = some latest ∧
      IsGreatest {ms | ∃ step ∈ steps, (verbs.clamp step).spanMs = ms} latest.toNat := by
  have hends : ((steps.map verbs.clamp).map MacroStep.endMs).max? ≠ none := by
    simpa [List.max?_eq_none_iff] using hne
  obtain ⟨latest, hlatest⟩ := Option.ne_none_iff_exists'.mp hends
  refine ⟨latest, hlatest, ?_⟩
  simpa only [List.mem_map, exists_exists_and_eq_and] using isGreatest_spanMs (spanMs_clamp hknown) hlatest

/-- Steps for verbs of the table are refused for their number or for their latest end. -/
theorem ofSteps_of_knows (hname : IsPlainName name) :
    ofSteps verbs limits name steps = ofClamped (Text.lower name) (steps.map verbs.clamp) limits :=
  (bind_of_eq_ok (macroName_of_isPlainName hname) _).trans
    (bind_of_eq_ok (mapM_clampStep hknown (Text.lower name)) _)

end

/-! ### Macros -/

theorem exists_ofSteps (h : Acceptable verbs limits name steps) :
    ∃ m, ofSteps verbs limits name steps = .ok m ∧ m.name = Text.lower name ∧
      m.steps = steps.map verbs.clamp := by
  have hne : steps ≠ [] := List.ne_nil_of_length_pos h.nonempty
  obtain ⟨latest, hmax, hlatest⟩ := exists_latest h.known hne
  obtain ⟨step, hstep, hspan⟩ := hlatest.1
  have hbound : ¬limits.ceilingMs < latest := by
    rw [UInt32.not_lt, UInt32.le_iff_toNat_le, ← hspan]
    exact h.ceiling step hstep
  have hlength : ¬limits.maxSteps < (steps.map verbs.clamp).length := by
    rw [List.length_map]
    exact Nat.not_lt.mpr h.length
  rw [ofSteps_of_knows h.known h.name, ofClamped]
  simp only [hmax, Option.getD_some]
  rw [if_neg (by simpa using hne), if_neg hlength, if_neg hbound]
  exact ⟨_, rfl, rfl, rfl⟩

theorem exists_refusal (h : ¬Acceptable verbs limits name steps) :
    ∃ error, ofSteps verbs limits name steps = .error error ∧
      Refusal verbs limits name steps error := by
  classical
  by_cases hname : IsPlainName name
  swap
  · exact ⟨_, bind_of_eq_error (macroName_of_not_isPlainName hname) _, .invalidName hname⟩
  cases hfirst : steps.find? fun step => ¬verbs.Knows step.verb with
  | some step =>
      obtain ⟨hstep, before, behind, hsplit, hbefore⟩ := List.find?_eq_some_iff_append.mp hfirst
      have hbefore : ∀ step ∈ before, verbs.Knows step.verb := by simpa using hbefore
      have hstep : ¬verbs.Knows step.verb := by simpa using hstep
      have hmapM : steps.mapM (clampStep verbs (Text.lower name)) =
          .error (.unknownVerb (Text.lower name) step.verb) := by
        rw [hsplit]
        exact mapM_eq_error (fun other hother => ⟨_, clampStep_of_knows (hbefore other hother) _⟩)
          (clampStep_of_not_knows hstep _)
      refine ⟨_, (bind_of_eq_ok (macroName_of_isPlainName hname) _).trans ?_,
        .unknownVerb hname hsplit hbefore hstep⟩
      exact bind_of_eq_error hmapM _
  | none =>
      have hknown : ∀ step ∈ steps, verbs.Knows step.verb := by
        simpa using List.find?_eq_none.mp hfirst
      rw [ofSteps_of_knows hknown hname]
      by_cases hne : steps = []
      · subst hne
        exact ⟨_, rfl, .empty hname rfl⟩
      obtain ⟨latest, hmax, hlatest⟩ := exists_latest hknown hne
      rw [ofClamped]
      simp only [hmax, Option.getD_some, List.length_map]
      rw [if_neg (by simpa using hne)]
      by_cases hlength : limits.maxSteps < steps.length
      · rw [if_pos hlength]
        exact ⟨_, rfl, .tooManySteps hname hknown hlength⟩
      rw [if_neg hlength]
      have hlength := Nat.not_lt.mp hlength
      by_cases hbound : limits.ceilingMs < latest
      · rw [if_pos hbound]
        exact ⟨_, rfl, .exceedsBounds hname hknown hlength hlatest hbound⟩
      · refine absurd ⟨hname, hknown, List.length_pos_of_ne_nil hne, hlength, ?_⟩ h
        intro step hstep
        rw [UInt32.not_lt, UInt32.le_iff_toNat_le] at hbound
        exact Nat.le_trans (hlatest.2 ⟨step, hstep, rfl⟩) hbound

end Macro

namespace MacroTable

variable {verbs : VerbTable} {limits : MacroLimits}

/-! ### Tables -/

/-- Which of the stored macros are kept when they are added behind macros under some names, and the errors
of the others. -/
structure Sifts (verbs : VerbTable) (limits : MacroLimits) (taken : List String)
    (stored kept : StoredMacros) (errors : List MacroError) : Prop where
  sublist : kept.Sublist stored
  mem_iff : ∀ before name steps behind, stored = before ++ (name, steps) :: behind →
    ((name, steps) ∈ kept ↔ Macro.Acceptable verbs limits name steps ∧ Text.lower name ∉ taken ∧
      ∀ earlier ∈ before, earlier ∈ kept → Text.lower earlier.1 ≠ Text.lower name)
  refused : List.Forall₂ (fun entry error => Macro.Refusal verbs limits entry.1 entry.2 error)
    (stored.filter (· ∉ kept)) errors

theorem Sifts.nil (taken : List String) : Sifts verbs limits taken [] [] [] :=
  ⟨.slnil, by simp, .nil⟩

section

variable {taken : List String} {name : String} {steps : List MacroStep} {rest kept : StoredMacros}
  {error : MacroError} {errors : List MacroError} (hnew : name ∉ rest.map (·.1))

include hnew

theorem Sifts.accept (hrest : Sifts verbs limits (taken ++ [Text.lower name]) rest kept errors)
    (h : Macro.Acceptable verbs limits name steps) (hfree : Text.lower name ∉ taken) :
    Sifts verbs limits taken ((name, steps) :: rest) ((name, steps) :: kept) errors := by
  have hne : ∀ other ∈ rest, other ≠ (name, steps) := by
    rintro _ hmem rfl
    exact hnew (List.mem_map_of_mem hmem)
  have hkept : ∀ other ∈ rest, other ∈ (name, steps) :: kept ↔ other ∈ kept := by
    intro other hother
    rw [List.mem_cons, or_iff_right (hne other hother)]
  refine ⟨hrest.sublist.cons_cons _, ?_, ?_⟩
  · intro before name' steps' behind hsplit
    cases before with
    | nil =>
        cases hsplit
        simp [h, hfree]
    | cons first before =>
        cases hsplit
        have hbefore : (∀ earlier ∈ before, earlier ∈ (name, steps) :: kept →
            Text.lower earlier.1 ≠ Text.lower name') ↔
              ∀ earlier ∈ before, earlier ∈ kept → Text.lower earlier.1 ≠ Text.lower name' :=
          forall₂_congr fun earlier hearlier => by rw [hkept earlier (List.mem_append_left _ hearlier)]
        rw [hkept _ (by simp), hrest.mem_iff before name' steps' behind rfl, List.forall_mem_cons,
          hbefore, List.mem_append, List.mem_singleton, not_or]
        simp only [List.mem_cons, true_or, forall_const, ne_comm (a := Text.lower name), and_assoc]
  · rw [List.filter_cons_of_neg (by simp)]
    have hfilter : rest.filter (· ∉ (name, steps) :: kept) = rest.filter (· ∉ kept) :=
      List.filter_congr fun other hother => by simp only [hkept other hother]
    rw [hfilter]
    exact hrest.refused

theorem Sifts.refuse (hrest : Sifts verbs limits taken rest kept errors)
    (h : ¬(Macro.Acceptable verbs limits name steps ∧ Text.lower name ∉ taken))
    (herror : Macro.Refusal verbs limits name steps error) :
    Sifts verbs limits taken ((name, steps) :: rest) kept (error :: errors) := by
  have hout : (name, steps) ∉ kept := fun hmem =>
    hnew (List.mem_map_of_mem (hrest.sublist.subset hmem))
  refine ⟨hrest.sublist.cons _, ?_, ?_⟩
  · intro before name' steps' behind hsplit
    cases before with
    | nil =>
        cases hsplit
        exact ⟨fun hmem => absurd hmem hout, fun hall => absurd ⟨hall.1, hall.2.1⟩ h⟩
    | cons first before =>
        cases hsplit
        rw [hrest.mem_iff before name' steps' behind rfl, List.forall_mem_cons]
        simp only [hout, false_imp_iff, true_and]
  · rw [List.filter_cons_of_pos (by simpa using hout)]
    exact .cons herror hrest.refused

end

/-- A table takes the steps of its own macros, and refuses none. -/
theorem Made.ofSteps_toSteps_eq {t : MacroTable} (h : t.Made verbs limits) :
    ofSteps verbs limits t.toSteps = (t, []) :=
  addSteps_of_made [] h

theorem keys_toSteps (t : MacroTable) : t.toSteps.map (·.1) = t.names := List.map_map ..

/-- One stored macro is added where it can be taken and its name is free. -/
theorem addSteps_cons (t : MacroTable) (name : String) (steps : List MacroStep) (rest : StoredMacros) :
    (Macro.Acceptable verbs limits name steps ∧ Text.lower name ∉ t.names ∧
      ∃ t', t'.toSteps = t.toSteps ++ [(Text.lower name, steps.map verbs.clamp)] ∧
        addSteps verbs limits t ((name, steps) :: rest) = addSteps verbs limits t' rest) ∨
    ¬(Macro.Acceptable verbs limits name steps ∧ Text.lower name ∉ t.names) ∧
      ∃ error, Macro.Refusal verbs limits name steps error ∧
        addSteps verbs limits t ((name, steps) :: rest) =
          ((addSteps verbs limits t rest).1, error :: (addSteps verbs limits t rest).2) := by
  by_cases h : Macro.Acceptable verbs limits name steps
  · obtain ⟨m, hm, hname, hsteps⟩ := Macro.exists_ofSteps h
    by_cases htaken : Text.lower name ∈ t.names
    · have hadd : t.add m = .error (.alreadyExists (Text.lower name)) := by
        rw [add, hname, if_pos (List.contains_iff_mem.mpr htaken)]
      refine .inr ⟨fun hfree => hfree.2 htaken, _, .alreadyExists h, ?_⟩
      rw [addSteps, bind_of_eq_ok hm, hadd]
    · have hadd : t.add m = .ok { entries := t.entries ++ [(m.name, m)] } := by
        rw [add, hname, if_neg (mt List.contains_iff_mem.mp htaken)]
      refine .inl ⟨h, htaken, { entries := t.entries ++ [(m.name, m)] }, ?_, ?_⟩
      · rw [← hsteps, hname]
        exact List.map_append
      · rw [addSteps, bind_of_eq_ok hm, hadd]
  · obtain ⟨error, herror, hrefusal⟩ := Macro.exists_refusal h
    refine .inr ⟨fun hall => h hall.1, error, hrefusal, ?_⟩
    rw [addSteps, bind_of_eq_error herror]

theorem exists_sifts (t : MacroTable) {stored : StoredMacros} (hkeys : (stored.map (·.1)).Nodup) :
    ∃ kept, Sifts verbs limits t.names stored kept (addSteps verbs limits t stored).2 ∧
      (addSteps verbs limits t stored).1.toSteps =
        t.toSteps ++ kept.map fun entry => (Text.lower entry.1, entry.2.map verbs.clamp) := by
  induction stored generalizing t with
  | nil => exact ⟨[], .nil _, (List.append_nil _).symm⟩
  | cons entry rest ih =>
      obtain ⟨name, steps⟩ := entry
      obtain ⟨hnew, hrest⟩ := List.nodup_cons.mp hkeys
      rcases addSteps_cons t name steps rest with ⟨h, hfree, t', ht', hadd⟩ | ⟨h, error, hrefusal, hadd⟩
      · obtain ⟨kept, hsifts, hsteps⟩ := ih t' hrest
        have hnames : t'.names = t.names ++ [Text.lower name] := by
          rw [← keys_toSteps, ht', List.map_append, keys_toSteps, List.map_singleton]
        rw [hnames] at hsifts
        refine ⟨(name, steps) :: kept, hadd ▸ hsifts.accept hnew h hfree, ?_⟩
        rw [hadd, hsteps, ht', List.append_assoc, List.map_cons, List.singleton_append]
      · obtain ⟨kept, hsifts, hsteps⟩ := ih t hrest
        rw [hadd]
        exact ⟨kept, hsifts.refuse hnew h hrefusal, hsteps⟩

end MacroTable

namespace Team

variable {t : Team}

/-- What a team says it has is taken back as it is. -/
theorem Reachable.restore_snapshot (h : t.Reachable) (files : Files) (now : Time) :
    ∃ stored, t.snapshotValue.toSnapshot? = some stored ∧
      (restore files now t stored).2 = (t, []) := by
  have hmade := h.sound.macros
  refine ⟨t.macros.toSteps, ?_, ?_⟩
  · have hread := Value.toStoredMacros?_ofStoredMacros hmade.nodup_toSteps
    have hfields : t.snapshotValue.toFields? ["macros"] =
      some [some (.ofStoredMacros t.macros.toSteps)] := rfl
    rw [Value.toSnapshot?, hfields]
    simp only [Option.bind_eq_bind, Option.bind_some, Value.orDefault, hread]
  · have hsame : MacroTable.ofSteps t.verbs t.config.macros.limits t.macros.toSteps = (t.macros, []) :=
      hmade.ofSteps_toSteps_eq
    rw [restore, hsame]
    rfl

end Team

namespace MacroTable

/-- **Stored macros.** With whatever verbs a table is built and whatever its limits are, the stored macros
that it takes are those with a plain name that no macro taken before has in lower case, with as many steps
as allowed and one at least, each for a verb of the table, and with no end behind the ceiling once they are
clamped; they stand in the table in order, clamped, and each of the others is refused with one error, in
order. Loaded again, the steps of the table make the same table without errors, so that restoring the
snapshot of a team leaves the team as it is. -/
theorem revalidation {d : Declarations} {verbs : VerbTable} (hbuild : d.build = .ok verbs)
    (limits : MacroLimits) :
    (∀ stored : StoredMacros, (stored.map (·.1)).Nodup →
      (∃ kept, Sifts verbs limits [] stored kept (ofSteps verbs limits stored).2 ∧
        (ofSteps verbs limits stored).1.toSteps =
          kept.map fun entry => (Text.lower entry.1, entry.2.map verbs.clamp)) ∧
      ofSteps verbs limits (ofSteps verbs limits stored).1.toSteps =
        ((ofSteps verbs limits stored).1, [])) ∧
    ∀ t : Team, t.Reachable → ∀ files now, ∃ stored, t.snapshotValue.toSnapshot? = some stored ∧
      (t.restore files now stored).2 = (t, []) := by
  refine ⟨fun stored hkeys => ⟨?_, ?_⟩, fun t ht files now => ht.restore_snapshot files now⟩
  · obtain ⟨kept, hsifts, hsteps⟩ := exists_sifts {} hkeys
    exact ⟨kept, hsifts, hsteps⟩
  · exact (made_ofSteps (Declarations.distinct_of_build hbuild) stored).ofSteps_toSteps_eq

/-- A jump that is held for too long, another one under its name in other letters, and macros that cannot
be taken. -/
def assorted : StoredMacros :=
  [("Hop", [{ verb := "jump", durationMs := 3000 }]),
    ("hop", [{ verb := "jump", durationMs := 50 }]),
    ("", [{ verb := "jump", durationMs := 50 }]),
    ("fly", [{ verb := "jump", durationMs := 50 }, { verb := "Jump", durationMs := 50 }]),
    ("none", []),
    ("late", [{ verb := "right", delayMs := 6000, durationMs := 50 }]),
    ("run", [{ verb := "right", delayMs := 1900, durationMs := 200 }])]

theorem revalidation_of_assorted :
    (assorted.map (·.1)).Nodup ∧
    (∃ kept, Sifts jumpAndRight {} [] assorted kept [.alreadyExists "hop", .invalidName "",
        .unknownVerb "fly" "Jump", .empty "none", .exceedsBounds "late" 6000 5000] ∧
      [("hop", [{ verb := "jump", durationMs := 1000 }]),
        ("run", [{ verb := "right", delayMs := 1900, durationMs := 100 }])] =
          kept.map fun entry => (Text.lower entry.1, entry.2.map jumpAndRight.clamp)) ∧
    Team.hopping.Reachable ∧ ∃ stored, Team.hopping.snapshotValue.toSnapshot? = some stored ∧
      (Team.hopping.restore {} 0 stored).2 = (Team.hopping, []) := by
  have hbuild : Declarations.build { profile := "", verbs := jumpAndRight.verbs } =
      .ok jumpAndRight := rfl
  have hkeys : (assorted.map (·.1)).Nodup := by decide
  have hsteps : (ofSteps jumpAndRight {} assorted).1.toSteps =
      [("hop", [{ verb := "jump", durationMs := 1000 }]),
        ("run", [{ verb := "right", delayMs := 1900, durationMs := 100 }])] := by cbv
  have herrors : (ofSteps jumpAndRight {} assorted).2 = [.alreadyExists "hop", .invalidName "",
      .unknownVerb "fly" "Jump", .empty "none", .exceedsBounds "late" 6000 5000] := by cbv
  obtain ⟨htable, hteam⟩ := revalidation hbuild {}
  obtain ⟨hkept, -⟩ := htable assorted hkeys
  rw [hsteps, herrors] at hkept
  exact ⟨hkeys, hkept, Team.reachable_hopping, hteam _ Team.reachable_hopping {} 0⟩

end MacroTable

end CrowdPad
