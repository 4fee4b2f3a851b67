import CrowdPad.Proofs.Data.Entries
import CrowdPad.Proofs.Macro.Basic

/-! Tables of macros. Whatever is added, replaced, removed or loaded, and whether it succeeds or not,
a table holds each macro once, under its own name, and every macro in it is one that its verbs and
limits make. -/

namespace CrowdPad

namespace Macro

variable {verbs : VerbTable} {limits : MacroLimits} {m : Macro}

/-- What holds of a macro that was made with the verbs and limits of a table. -/
structure WellMade (verbs : VerbTable) (limits : MacroLimits) (m : Macro) : Prop where
  name : IsMacroName m.name
  nonempty : 1 ≤ m.steps.length
  length : m.steps.length ≤ limits.maxSteps
  verb : ∀ step ∈ m.steps, ∃ v ∈ verbs.verbs, v.name = step.verb
  clamped : ∀ step ∈ m.steps, clampStep verbs m.name step = .ok step
  /-- No step ends too late for 32 bits. -/
  fits : ∀ step ∈ m.steps, step.spanMs < UInt32.size
  minTime : IsLeast {ms | ∃ step ∈ m.steps, step.spanMs = ms} m.minTime.toNat
  maxTime : IsGreatest {ms | ∃ step ∈ m.steps, step.spanMs = ms} m.maxTime.toNat
  ceiling : m.maxTime ≤ limits.ceilingMs

/-- What a verb grants ends at the ceiling of the verb, or it is a toggle and ends as it starts. -/
theorem spanMs_ofRequest {r : Request} (hr : r.Stands verbs) :
    (MacroStep.ofRequest r).spanMs < UInt32.size := by
  show r.delayMs.toNat + r.durationMs.toNat < UInt32.size
  rcases hr.granted.bounded.total with hzero | htotal
  · rw [hzero]
    exact r.delayMs.toNat_lt
  · exact Nat.lt_of_le_of_lt htotal r.verb.ceilingMs.toNat_lt

section

variable {steps : List MacroStep} (hfits : ∀ step ∈ steps, step.spanMs < UInt32.size) {ms : UInt32}

include hfits

theorem isLeast_spanMs (hmin : (steps.map MacroStep.endMs).min? = some ms) :
    IsLeast {n | ∃ step ∈ steps, step.spanMs = n} ms.toNat := by
  obtain ⟨hmem, hle⟩ := List.min?_eq_some_iff.mp hmin
  constructor
  · obtain ⟨step, hstep, rfl⟩ := List.mem_map.mp hmem
    exact ⟨step, hstep, (MacroStep.endMs_toNat (hfits step hstep)).symm⟩
  · rintro _ ⟨step, hstep, rfl⟩
    rw [← MacroStep.endMs_toNat (hfits step hstep)]
    exact UInt32.le_iff_toNat_le.mp (hle _ (List.mem_map_of_mem hstep))

theorem isGreatest_spanMs (hmax : (steps.map MacroStep.endMs).max? = some ms) :
    IsGreatest {n | ∃ step ∈ steps, step.spanMs = n} ms.toNat := by
  obtain ⟨hmem, hle⟩ := List.max?_eq_some_iff.mp hmax
  constructor
  · obtain ⟨step, hstep, rfl⟩ := List.mem_map.mp hmem
    exact ⟨step, hstep, (MacroStep.endMs_toNat (hfits step hstep)).symm⟩
  · rintro _ ⟨step, hstep, rfl⟩
    rw [← MacroStep.endMs_toNat (hfits step hstep)]
    exact UInt32.le_iff_toNat_le.mp (hle _ (List.mem_map_of_mem hstep))

end

theorem Made.steps_clamped (h : m.Made verbs limits) :
    ∀ step ∈ m.steps, clampStep verbs m.name step = .ok step := by
  obtain ⟨key, -, h⟩ := exists_of_bind_eq_ok h
  obtain ⟨clamped, hclamped, h⟩ := exists_of_bind_eq_ok h
  obtain ⟨rfl, rfl, -⟩ := ofClamped_eq_ok h
  exact List.forall₂_same.mp (mapM_eq_ok_iff.mp hclamped)

theorem Made.wellMade (h : m.Made verbs limits) : m.WellMade verbs limits := by
  have hclamped := h.steps_clamped
  obtain ⟨key, hkey, h⟩ := exists_of_bind_eq_ok h
  obtain ⟨steps, -, h⟩ := exists_of_bind_eq_ok h
  obtain ⟨-, hname, -⟩ := macroName_eq_ok hkey
  obtain ⟨rfl, rfl, hne, hlength, hmin, hmax, hceiling⟩ := ofClamped_eq_ok h
  have hfits : ∀ step ∈ m.steps, step.spanMs < UInt32.size := by
    intro step hstep
    obtain ⟨r, hr, -, rfl⟩ := clampStep_eq_ok (hclamped step hstep)
    exact spanMs_ofRequest hr
  have hverb : ∀ step ∈ m.steps, ∃ v ∈ verbs.verbs, v.name = step.verb := by
    intro step hstep
    obtain ⟨r, hr, hget, -⟩ := clampStep_eq_ok (hclamped step hstep)
    exact ⟨r.verb, hr.mem, VerbTable.name_of_get? hget⟩
  exact {
    name := hname
    nonempty := List.length_pos_of_ne_nil hne
    length := hlength
    verb := hverb
    clamped := hclamped
    fits := hfits
    minTime := isLeast_spanMs hfits hmin
    maxTime := isGreatest_spanMs hfits hmax
    ceiling := hceiling }

end Macro

/-- What can be done to a table of macros. -/
inductive MacroChange where
  | addBody (grammar : Grammar) (name body : String)
  | addSteps (name : String) (steps : List MacroStep)
  | changeBody (grammar : Grammar) (name body : String)
  | changeSteps (name : String) (steps : List MacroStep)
  | remove (name : String)
  | clear
  | load (stored : StoredMacros)

namespace MacroTable

/-! ### Single changes -/

/-- Whether a table holds each macro once, under its own name, and made with these verbs and limits. -/
structure Made (verbs : VerbTable) (limits : MacroLimits) (t : MacroTable) : Prop where
  nodup : t.names.Nodup
  named : ∀ entry ∈ t.entries, entry.1 = entry.2.name
  made : ∀ entry ∈ t.entries, entry.2.Made verbs limits

variable {verbs : VerbTable} {limits : MacroLimits} {t t' : MacroTable} {m old : Macro}

theorem made_empty : Made verbs limits {} := ⟨List.nodup_nil, nofun, nofun⟩

theorem add_eq_ok (hadd : t.add m = .ok t') :
    m.name ∉ t.names ∧ t'.entries = t.entries ++ [(m.name, m)] := by
  unfold add at hadd
  split at hadd
  · cases hadd
  · rename_i hnew
    cases hadd
    exact ⟨by rwa [List.contains_iff_mem] at hnew, rfl⟩

theorem Made.add (h : t.Made verbs limits) (hm : m.Made verbs limits) (hadd : t.add m = .ok t') :
    t'.Made verbs limits := by
  obtain ⟨hnew, hentries⟩ := add_eq_ok hadd
  have hmem : ∀ entry ∈ t'.entries, entry ∈ t.entries ∨ entry = (m.name, m) := by
    intro entry hentry
    rw [hentries] at hentry
    exact (List.mem_append.mp hentry).imp_right List.mem_singleton.mp
  constructor
  · rw [names, hentries, List.map_append, List.nodup_append]
    refine ⟨h.nodup, List.pairwise_singleton _ _, ?_⟩
    intro name hname other hother hsame
    have hm : other = m.name := List.mem_singleton.mp hother
    exact hnew (hm ▸ hsame ▸ hname)
  · intro entry hentry
    rcases hmem entry hentry with hentry | rfl
    · exact h.named entry hentry
    · rfl
  · intro entry hentry
    rcases hmem entry hentry with hentry | rfl
    · exact h.made entry hentry
    · exact hm

theorem Made.change (h : t.Made verbs limits) (hm : m.Made verbs limits)
    (hchange : t.change m = .ok (t', old)) : t'.Made verbs limits := by
  unfold MacroTable.change at hchange
  split at hchange
  · rename_i found hfound
    cases hchange
    have hmem : m.name ∈ t.entries.map (·.1) := List.mem_map_of_mem (mem_of_lookup hfound)
    constructor
    · rw [names, Value.keys_putEntry_of_mem hmem]
      exact h.nodup
    · intro entry hentry
      rcases Value.eq_or_mem_of_mem_putEntry hentry with rfl | hentry
      · rfl
      · exact h.named entry hentry
    · intro entry hentry
      rcases Value.eq_or_mem_of_mem_putEntry hentry with rfl | hentry
      · exact hm
      · exact h.made entry hentry
  · cases hchange

theorem Made.remove (h : t.Made verbs limits) {name : String}
    (hremove : t.remove name = .ok (t', old)) : t'.Made verbs limits := by
  unfold MacroTable.remove at hremove
  simp only at hremove
  split at hremove
  · cases hremove
    have hsublist : (t.entries.filter fun entry => entry.1 != Text.lower name).Sublist t.entries :=
      List.filter_sublist
    exact ⟨h.nodup.sublist (hsublist.map _), fun entry hentry => h.named entry (hsublist.subset hentry),
      fun entry hentry => h.made entry (hsublist.subset hentry)⟩
  · cases hremove

/-! ### What stays of a table -/

theorem lookup_add (hadd : t.add m = .ok t') {name : String} {kept : Macro}
    (h : t.entries.lookup name = some kept) : t'.entries.lookup name = some kept := by
  rw [(add_eq_ok hadd).2, List.lookup_append, h, Option.some_or]

theorem lookup_add_self (hadd : t.add m = .ok t') : t'.entries.lookup m.name = some m := by
  obtain ⟨hnew, hentries⟩ := add_eq_ok hadd
  rw [hentries, List.lookup_append, lookup_eq_none_iff_not_mem_keys.mpr hnew, Option.none_or,
    List.lookup_cons_self]

theorem lookup_change (hchange : t.change m = .ok (t', old)) (name : String) :
    t'.entries.lookup name = if name == m.name then some m else t.entries.lookup name := by
  unfold MacroTable.change at hchange
  split at hchange
  · cases hchange
    exact Value.lookup_putEntry name
  · cases hchange

theorem lookup_remove {removed : String} (hremove : t.remove removed = .ok (t', old)) (name : String) :
    t'.entries.lookup name =
      if name == Text.lower removed then none else t.entries.lookup name := by
  unfold MacroTable.remove at hremove
  simp only at hremove
  split at hremove
  · cases hremove
    exact lookup_filter_ne name (Text.lower removed) t.entries
  · cases hremove

theorem lookup_toSteps (t : MacroTable) (name : String) :
    t.toSteps.lookup name = (t.entries.lookup name).map Macro.steps := by
  rw [toSteps]
  induction t.entries with
  | nil => rfl
  | cons entry rest ih =>
      rw [List.map_cons, List.lookup_cons, List.lookup_cons, ih]
      split <;> rfl

/-! ### Many changes -/

/-- Stored steps add macros that are made of them, whatever is refused. -/
theorem Made.addSteps (h : t.Made verbs limits) (hdistinct : verbs.Distinct)
    (stored : StoredMacros) : (addSteps verbs limits t stored).1.Made verbs limits := by
  induction stored generalizing t with
  | nil => exact h
  | cons entry rest ih =>
      rw [MacroTable.addSteps]
      split
      · rename_i hadded
        obtain ⟨m, hm, hadd⟩ := exists_of_bind_eq_ok hadded
        exact ih (h.add (Macro.made_of_ofSteps hdistinct hm) hadd)
      · exact ih h

theorem made_ofSteps (hdistinct : verbs.Distinct) (stored : StoredMacros) :
    (ofSteps verbs limits stored).1.Made verbs limits :=
  made_empty.addSteps hdistinct stored

/-! ### All changes -/

/-- The changed table, or the table as it was where the change is refused. -/
def orKeep (t : MacroTable) (changed : Except MacroError MacroTable) : MacroTable :=
  changed.toOption.getD t

/-- A change, with the verbs and limits that the table belongs to. -/
def apply (verbs : VerbTable) (limits : MacroLimits) (t : MacroTable) : MacroChange → MacroTable
  | .addBody grammar name body =>
    t.orKeep (Macro.compile grammar verbs t limits name body >>= t.add)
  | .addSteps name steps => t.orKeep (Macro.ofSteps verbs limits name steps >>= t.add)
  | .changeBody grammar name body =>
    t.orKeep (Macro.compile grammar verbs t limits name body >>= fun m => (t.change m).map (·.1))
  | .changeSteps name steps =>
    t.orKeep (Macro.ofSteps verbs limits name steps >>= fun m => (t.change m).map (·.1))
  | .remove name => t.orKeep ((t.remove name).map (·.1))
  | .clear => {}
  | .load stored => (ofSteps verbs limits stored).1

/-- Any number of changes to an empty table. -/
def applyAll (verbs : VerbTable) (limits : MacroLimits) (changes : List MacroChange) : MacroTable :=
  changes.foldl (apply verbs limits) {}

theorem orKeep_ok {changed : Except MacroError MacroTable} (h : changed = .ok t') :
    t.orKeep changed = t' := by
  rw [h]
  rfl

theorem Made.orKeep (h : t.Made verbs limits) {changed : Except MacroError MacroTable}
    (hchanged : ∀ t', changed = .ok t' → t'.Made verbs limits) :
    (t.orKeep changed).Made verbs limits := by
  cases hresult : changed with
  | error error => exact h
  | ok t' => exact hchanged t' hresult

theorem Made.bind_add (h : t.Made verbs limits) {made : Except MacroError Macro}
    (hmade : ∀ m, made = .ok m → m.Made verbs limits) (hadded : made >>= t.add = .ok t') :
    t'.Made verbs limits := by
  obtain ⟨m, hm, hadd⟩ := exists_of_bind_eq_ok hadded
  exact h.add (hmade m hm) hadd

theorem Made.bind_change (h : t.Made verbs limits) {made : Except MacroError Macro}
    (hmade : ∀ m, made = .ok m → m.Made verbs limits)
    (hchanged : (made >>= fun m => (t.change m).map (·.1)) = .ok t') : t'.Made verbs limits := by
  obtain ⟨m, hm, hmapped⟩ := exists_of_bind_eq_ok hchanged
  obtain ⟨⟨_, old⟩, hchange, rfl⟩ := exists_of_map_eq_ok hmapped
  exact h.change (hmade m hm) hchange

theorem Made.map_remove (h : t.Made verbs limits) {name : String}
    (hremoved : (t.remove name).map (·.1) = .ok t') : t'.Made verbs limits := by
  obtain ⟨⟨_, old⟩, hremove, rfl⟩ := exists_of_map_eq_ok hremoved
  exact h.remove hremove

theorem Made.apply (h : t.Made verbs limits) (hdistinct : verbs.Distinct) (change : MacroChange) :
    (t.apply verbs limits change).Made verbs limits := by
  cases change with
  | addBody grammar name body =>
      exact h.orKeep fun _ => h.bind_add fun _ => Macro.made_of_compile hdistinct
  | addSteps name steps =>
      exact h.orKeep fun _ => h.bind_add fun _ => Macro.made_of_ofSteps hdistinct
  | changeBody grammar name body =>
      exact h.orKeep fun _ => h.bind_change fun _ => Macro.made_of_compile hdistinct
  | changeSteps name steps =>
      exact h.orKeep fun _ => h.bind_change fun _ => Macro.made_of_ofSteps hdistinct
  | remove name => exact h.orKeep fun _ => h.map_remove
  | clear => exact made_empty
  | load stored => exact made_ofSteps hdistinct stored

/-- **Tables of macros.** Whatever is done to a table, every macro stands in it once and under its own
name, and is well made: its name is in lower case, it has one step at least and no more than allowed,
each for a verb of the table that grants it as it stands, and its times are those of its earliest and
its latest end, without overflow and within the limit. -/
theorem wellMade_applyAll {d : Declarations} (hbuild : d.build = .ok verbs) (limits : MacroLimits)
    (changes : List MacroChange) :
    (applyAll verbs limits changes).names.Nodup ∧
      ∀ entry ∈ (applyAll verbs limits changes).entries,
        entry.1 = entry.2.name ∧ entry.2.WellMade verbs limits := by
  have hdistinct := Declarations.distinct_of_build hbuild
  have hmade : (applyAll verbs limits changes).Made verbs limits :=
    List.foldlRecOn changes (MacroTable.apply verbs limits) made_empty
      fun _ h change _ => h.apply hdistinct change
  exact ⟨hmade.nodup, fun entry hentry =>
    ⟨hmade.named entry hentry, (hmade.made entry hentry).wellMade⟩⟩

/-- Two verbs, the first of which is never held for longer than a second. -/
def jumpAndRight : VerbTable :=
  { verbs := [{ name := "jump", key := "a", defaultMs := 50 },
      { name := "right", key := "d", defaultMs := 100, ceilingMs := 2000 }] }

/-- A macro that invokes another one later, followed by a jump that is cut short. -/
def laterHop : Macro :=
  { name := "later", minTime := 140, maxTime := 1000, steps := [
      { verb := "jump", delayMs := 40, durationMs := 100 },
      { verb := "right", delayMs := 240, durationMs := 300 },
      { verb := "jump", delayMs := 500, durationMs := 500 }] }

theorem laterHop_wellMade : laterHop.WellMade jumpAndRight {} := by
  have hbuild : Declarations.build { profile := "", verbs := jumpAndRight.verbs } =
      .ok jumpAndRight := rfl
  have hall := wellMade_applyAll hbuild {} [.addBody {} "Hop" "jump 100 right 200+300",
    .addBody {} "later" "hop 40+ jump 500+900", .remove "hop", .remove "hop"]
  have hentries : (applyAll jumpAndRight {} [.addBody {} "Hop" "jump 100 right 200+300",
      .addBody {} "later" "hop 40+ jump 500+900", .remove "hop", .remove "hop"]).entries =
        [("later", laterHop)] := by cbv
  rw [hentries] at hall
  exact (hall.2 _ (List.mem_singleton_self _)).2

end MacroTable

end CrowdPad
