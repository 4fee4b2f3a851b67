import CrowdPad.Config.Catalogue
import CrowdPad.Proofs.Data.Entries
import CrowdPad.Proofs.Profile.Builtin
import CrowdPad.Proofs.Profile.Document

/-! What a name stands for in the catalogue. Of all that was declared under a name, in any case of
letters, the last decides, whether it can be used or not; a built-in profile only comes in where nothing
was declared. That built-in profiles are kept once they were asked for does not show, because a name
under which one is kept is a name under which nothing else is. -/

namespace CrowdPad

/-- The table of a document is named after the document. -/
theorem Profile.Document.profile_of_toTable {doc : Document} {t : VerbTable}
    (h : doc.toTable = .ok t) : t.profile = doc.profile := by
  rw [toTable, declarations_eq] at h
  exact (Declarations.build_eq_ok_iff.mp h).1

/-- What a source declares: the name in lower case, and the table or the reason why there is none. -/
def ProfileSource.declaration (fs : Files) (source : ProfileSource) :
    String × Except String VerbTable :=
  (Text.lower (source.resolve fs).1, (source.resolve fs).2)

theorem ProfileSource.build_eq_ok_iff {document : Profile.Document} {t : VerbTable} :
    (build document).2 = .ok t ↔ document.toTable = .ok t := by
  rw [build]
  cases document.toTable with
  | error fault => exact ⟨nofun, nofun⟩
  | ok table =>
      show Except.ok table = Except.ok t ↔ _
      rw [Except.ok.injEq, Except.ok.injEq]

theorem ProfileSource.profile_of_build {document : Profile.Document} {t : VerbTable}
    (h : (build document).2 = .ok t) : t.profile = (build document).1 :=
  Profile.Document.profile_of_toTable (build_eq_ok_iff.mp h)

/-- A source that can be used is declared under the name of its table. -/
theorem ProfileSource.profile_of_resolve {fs : Files} {source : ProfileSource} {t : VerbTable}
    (h : (source.resolve fs).2 = .ok t) : t.profile = (source.resolve fs).1 := by
  cases source with
  | inline document => exact profile_of_build h
  | file path =>
      rw [resolve] at h ⊢
      split
      · rename_i hload
        rw [hload] at h
        exact profile_of_build h
      · rename_i hload
        rw [hload] at h
        cases h

/-- The document of a source, or why it cannot be read. -/
def ProfileSource.document (fs : Files) : ProfileSource → Except ProfileFault Profile.Document
  | .inline document => .ok document
  | .file path => Profile.Document.load fs path

/-- A source that can be read is declared under the name in its document. -/
theorem ProfileSource.resolve_of_document {fs : Files} {source : ProfileSource} {document : Profile.Document}
    (h : source.document fs = .ok document) : source.resolve fs = build document := by
  cases source with
  | inline other =>
      obtain rfl := Except.ok.inj h
      rfl
  | file path =>
      have hload : Profile.Document.load fs path = .ok document := h
      rw [resolve, hload]

/-- A file that cannot be read is declared under its own name, without what is behind the last dot. -/
theorem ProfileSource.declaration_of_unreadable {fs : Files} {path : String} {fault : ProfileFault}
    (h : Profile.Document.load fs path = .error fault) :
    (ProfileSource.file path).declaration fs =
      (Text.lower ((Path.fileStem? path).getD ""), .error fault.message) := by
  rw [declaration, resolve, h]

/-- A change of a catalogue. -/
inductive CatalogueStep where
  | insert (table : VerbTable)
  | markBroken (name reason : String)
  | resolve (name : String)

namespace CatalogueStep

/-- The catalogue behind a step. -/
def apply (c : Catalogue) : CatalogueStep → Catalogue
  | .insert table => c.insert table
  | .markBroken name reason => c.markBroken name reason
  | .resolve name => (c.resolve name).1

/-- What a step declares, if anything. -/
def declaration? : CatalogueStep → Option (String × Except String VerbTable)
  | .insert table => some (Text.lower table.profile, .ok table)
  | .markBroken name reason => some (Text.lower name, .error reason)
  | .resolve _ => none

/-- The step that a source is taken in by. -/
def ofSource (fs : Files) (source : ProfileSource) : CatalogueStep :=
  match source.resolve fs with
  | (_, .ok table) => .insert table
  | (name, .error reason) => .markBroken name reason

theorem apply_ofSource (fs : Files) (c : Catalogue) (source : ProfileSource) :
    (ofSource fs source).apply c = c.declare fs source := by
  rw [ofSource, Catalogue.declare]
  rcases source.resolve fs with ⟨name, reason | table⟩
  · rfl
  · rfl

theorem declaration?_ofSource (fs : Files) (source : ProfileSource) :
    (ofSource fs source).declaration? = some (source.declaration fs) := by
  rw [ofSource, ProfileSource.declaration]
  split
  · rename_i name table hresolve
    have hname := ProfileSource.profile_of_resolve (congrArg Prod.snd hresolve)
    rw [declaration?, hname]
    rw [hresolve]
  · rename_i name reason hresolve
    rw [hresolve]
    rfl

end CatalogueStep

/-- What was declared last under a name in lower case. -/
def lastDeclared (declared : List (String × Except String VerbTable)) (key : String) :
    Option (Except String VerbTable) :=
  declared.reverse.lookup key

theorem lastDeclared_concat (declared : List (String × Except String VerbTable)) (name key : String)
    (verdict : Except String VerbTable) : lastDeclared (declared ++ [(name, verdict)]) key =
      if key == name then some verdict else lastDeclared declared key := by
  rw [lastDeclared, List.reverse_append, List.reverse_singleton, List.singleton_append,
    List.lookup_cons]
  cases key == name <;> rfl

namespace Catalogue

section Lookup

variable {α : Type} (name key : String) (item : α) (entries : List (String × α))

theorem lookup_without :
    (without name entries).lookup key = if key == name then none else entries.lookup key :=
  lookup_filter_ne key name entries

theorem lookup_without_concat : (without name entries ++ [(name, item)]).lookup key =
    if key == name then some item else entries.lookup key := by
  rw [List.lookup_append, lookup_without, List.lookup_cons]
  cases key == name with
  | true => rfl
  | false => exact Option.or_none

end Lookup

/-! ### What a catalogue holds -/

/-- Whether a catalogue holds what was declared last under a name in lower case, in one of its two lists
and not in the other. Where nothing was declared, it may hold the built-in profile. -/
def Holds (c : Catalogue) (key : String) : Option (Except String VerbTable) → Prop
  | some (.ok table) => c.tables.lookup key = some table ∧ c.broken.lookup key = none
  | some (.error reason) => c.tables.lookup key = none ∧ c.broken.lookup key = some reason
  | none => (∀ table, c.tables.lookup key = some table → Profile.builtin key = .ok table) ∧
      c.broken.lookup key = none

/-- What a name in lower case is answered with, given what was declared last under it. -/
def answer (key : String) : Option (Except String VerbTable) → Except SetupError VerbTable
  | some (.ok table) => .ok table
  | some (.error reason) => .error (.brokenProfile key reason)
  | none => Profile.builtin key

variable {c c' : Catalogue} {key : String} {verdict : Option (Except String VerbTable)}

theorem Holds.of_lookup_eq (h : c.Holds key verdict)
    (htables : c'.tables.lookup key = c.tables.lookup key)
    (hbroken : c'.broken.lookup key = c.broken.lookup key) : c'.Holds key verdict := by
  unfold Holds at h ⊢
  rw [htables, hbroken]
  exact h

/-- A built-in profile is kept only under a name under which nothing was declared. -/
theorem Holds.eq_none (h : c.Holds key verdict) (htables : c.tables.lookup key = none)
    (hbroken : c.broken.lookup key = none) : verdict = none := by
  match verdict, h with
  | some (.ok table), h => exact absurd (htables.symm.trans h.1) nofun
  | some (.error reason), h => exact absurd (hbroken.symm.trans h.2) nofun
  | none, _ => rfl

/-- Asking changes nothing, or keeps the built-in profile of a name that was not there. -/
theorem resolve_fst (c : Catalogue) (name : String) : (c.resolve name).1 = c ∨
    ∃ table, c.tables.lookup (Text.lower name) = none ∧ c.broken.lookup (Text.lower name) = none ∧
      Profile.builtin (Text.lower name) = .ok table ∧
      (c.resolve name).1 = { c with tables := c.tables ++ [(Text.lower name, table)] } := by
  rw [resolve]
  cases htables : c.tables.lookup (Text.lower name) with
  | some table => exact .inl rfl
  | none =>
      cases hbroken : c.broken.lookup (Text.lower name) with
      | some reason => exact .inl rfl
      | none =>
          cases hbuiltin : Profile.builtin (Text.lower name) with
          | error error => exact .inl rfl
          | ok table => exact .inr ⟨table, rfl, rfl, rfl, rfl⟩

theorem holds_resolve {name : String} (h : c.Holds key verdict) :
    (c.resolve name).1.Holds key verdict := by
  obtain hsame | ⟨table, htables, hbroken, hbuiltin, hkept⟩ := c.resolve_fst name
  · rw [hsame]
    exact h
  · rw [hkept]
    by_cases hkey : key = Text.lower name
    · subst hkey
      rw [h.eq_none htables hbroken]
      refine ⟨fun other hother => ?_, hbroken⟩
      rw [List.lookup_append, htables, List.lookup_cons, beq_self_eq_true] at hother
      exact Option.some.inj hother ▸ hbuiltin
    · refine h.of_lookup_eq ?_ rfl
      rw [List.lookup_append, List.lookup_cons, beq_false_of_ne hkey]
      exact Option.or_none

/-- After a step the catalogue holds what was declared last, the step included. -/
theorem holds_apply {declared : List (String × Except String VerbTable)}
    (h : ∀ key, c.Holds key (lastDeclared declared key)) (step : CatalogueStep) (key : String) :
    (step.apply c).Holds key (lastDeclared (declared ++ step.declaration?.toList) key) := by
  cases step with
  | insert table =>
      have htables := lookup_without_concat (Text.lower table.profile) key table c.tables
      have hbroken := lookup_without (Text.lower table.profile) key c.broken
      rw [CatalogueStep.declaration?, Option.toList_some, lastDeclared_concat]
      split
      · rename_i hkey
        rw [if_pos hkey] at htables hbroken
        exact ⟨htables, hbroken⟩
      · rename_i hkey
        rw [if_neg hkey] at htables hbroken
        exact (h key).of_lookup_eq htables hbroken
  | markBroken name reason =>
      have htables := lookup_without (Text.lower name) key c.tables
      have hbroken := lookup_without_concat (Text.lower name) key reason c.broken
      rw [CatalogueStep.declaration?, Option.toList_some, lastDeclared_concat]
      split
      · rename_i hkey
        rw [if_pos hkey] at htables hbroken
        exact ⟨htables, hbroken⟩
      · rename_i hkey
        rw [if_neg hkey] at htables hbroken
        exact (h key).of_lookup_eq htables hbroken
  | resolve name =>
      rw [CatalogueStep.declaration?, Option.toList_none, List.append_nil]
      exact holds_resolve (h key)

/-- The catalogue behind some steps. -/
def after (steps : List CatalogueStep) : Catalogue := steps.foldl CatalogueStep.apply {}

/-- **What a catalogue holds.** However tables, reasons and questions follow each other, under every name
the catalogue holds what was declared last. -/
theorem holds_after (steps : List CatalogueStep) (key : String) :
    (after steps).Holds key (lastDeclared (steps.filterMap CatalogueStep.declaration?) key) := by
  induction steps using List.reverseRecOn generalizing key with
  | nil => exact ⟨nofun, rfl⟩
  | append_singleton steps step ih =>
      have hdeclared : [step].filterMap CatalogueStep.declaration? = step.declaration?.toList := by
        rw [List.filterMap_cons]
        cases step.declaration? <;> rfl
      rw [after, List.foldl_append, List.filterMap_append, hdeclared]
      exact holds_apply ih step key

/-! ### What a catalogue answers -/

theorem resolve_eq_answer {name : String} (h : c.Holds (Text.lower name) verdict) :
    (c.resolve name).2 = answer (Text.lower name) verdict := by
  rw [resolve]
  match verdict, h with
  | some (.ok table), ⟨htables, _⟩ => rw [htables]; rfl
  | some (.error reason), ⟨htables, hbroken⟩ => rw [htables, hbroken]; rfl
  | none, ⟨hkept, hbroken⟩ =>
      rw [hbroken, answer]
      cases htables : c.tables.lookup (Text.lower name) with
      | some table => exact (hkept table htables).symm
      | none => cases Profile.builtin (Text.lower name) <;> rfl

theorem Holds.lookup_eq_none (h : c.Holds key verdict) :
    c.tables.lookup key = none ∨ c.broken.lookup key = none := by
  match verdict, h with
  | some (.ok table), h => exact .inr h.2
  | some (.error reason), h => exact .inl h.1
  | none, h => exact .inr h.2

/-- Whether no name is both among the usable profiles and among the broken ones. -/
def Apart (c : Catalogue) : Prop := (c.tables.map (·.1)).Disjoint (c.broken.map (·.1))

theorem apart_after (steps : List CatalogueStep) : (after steps).Apart := by
  intro key htable hbroken
  rcases (holds_after steps key).lookup_eq_none with hnone | hnone
  · exact lookup_eq_none_iff_not_mem_keys.mp hnone htable
  · exact lookup_eq_none_iff_not_mem_keys.mp hnone hbroken

/-- The catalogue once some names were asked for. -/
def resolveAll (c : Catalogue) (names : List String) : Catalogue :=
  names.foldl (fun c name => (c.resolve name).1) c

/-- Taking in sources and then asking for names are steps. -/
theorem resolveAll_ofSources (fs : Files) (sources : List ProfileSource) (names : List String) :
    (ofSources fs sources).resolveAll names =
      after (sources.map (CatalogueStep.ofSource fs) ++ names.map CatalogueStep.resolve) := by
  have hsources : (fun c source => (CatalogueStep.ofSource fs source).apply c) = declare fs :=
    funext₂ (CatalogueStep.apply_ofSource fs)
  rw [after, List.foldl_append, List.foldl_map, List.foldl_map, hsources]
  rfl

theorem filterMap_declaration? (fs : Files) (sources : List ProfileSource) (names : List String) :
    (sources.map (CatalogueStep.ofSource fs) ++ names.map CatalogueStep.resolve).filterMap
        CatalogueStep.declaration? =
      sources.map (·.declaration fs) := by
  have hsources : CatalogueStep.declaration? ∘ CatalogueStep.ofSource fs =
      some ∘ ProfileSource.declaration fs :=
    funext (CatalogueStep.declaration?_ofSource fs)
  rw [List.filterMap_append, List.filterMap_map, List.filterMap_map, hsources,
    ← List.filterMap_map, List.filterMap_some]
  simp [Function.comp_def, CatalogueStep.declaration?]

/-- **What a name stands for.** Whatever was asked for before, a name is answered with what was declared
last under it in any case of letters, be it a table or the reason why there is none; only where nothing was
declared under it, it is answered with the built-in profile of that name or as unknown. No name ever is
both usable and broken. What is declared goes by the name in its document, and by that of its file if there is
no document to be read. -/
theorem resolve_eq_lastDeclared (fs : Files) (sources : List ProfileSource) :
    (∀ earlier name,
      (((ofSources fs sources).resolveAll earlier).resolve name).2 =
        answer (Text.lower name)
          (lastDeclared (sources.map (·.declaration fs)) (Text.lower name))) ∧
    (∀ name, if Text.lower name ∈ Profile.builtinKeys then
        ∃ table, Profile.builtin (Text.lower name) = .ok table ∧ table.profile = Text.lower name
      else Profile.builtin (Text.lower name) = .error (.unknownProfile (Text.lower name))) ∧
    (∀ earlier, ((ofSources fs sources).resolveAll earlier).Apart) ∧
    (∀ steps, (after steps).Apart) ∧
    ∀ source : ProfileSource, match source.document fs with
      | .ok document => (source.declaration fs).1 = Text.lower document.profile ∧
          ∀ table, (source.declaration fs).2 = .ok table ↔ document.toTable = .ok table
      | .error fault => ∃ path, source = .file path ∧
          source.declaration fs = (Text.lower ((Path.fileStem? path).getD ""), .error fault.message) := by
  refine ⟨fun earlier name => ?_, fun name => ?_, fun earlier => ?_, apart_after, fun source => ?_⟩
  · rw [resolveAll_ofSources]
    apply resolve_eq_answer
    rw [← filterMap_declaration? fs sources earlier]
    exact holds_after _ _
  · split
    · rename_i hmem
      rw [Profile.builtin_lower]
      exact Profile.builtin_of_mem hmem
    · rename_i hmem
      rw [Profile.builtin_lower]
      exact Profile.builtin_of_not_mem hmem
  · rw [resolveAll_ofSources]
    exact apart_after _
  · split
    · rename_i document hdocument
      rw [ProfileSource.declaration, ProfileSource.resolve_of_document hdocument]
      exact ⟨rfl, fun table => ProfileSource.build_eq_ok_iff⟩
    · rename_i fault hfault
      cases source with
      | inline document => cases hfault
      | file path => exact ⟨path, rfl, ProfileSource.declaration_of_unreadable hfault⟩

/-- A file that is missing hides the built-in profile it is named after, but no other. -/
example :
    let c := ofSources {} [.file "pads/gamepad.toml"]
    (c.resolve "GamePad").2 = .error (.brokenProfile "gamepad"
      ("failed to read verb profile pads/gamepad.toml: " ++ FileFault.missing.message)) ∧
    ((c.resolve "Towerfall").2.toOption.map (·.profile)) = some "towerfall" := by
  decide +kernel

end Catalogue

end CrowdPad
