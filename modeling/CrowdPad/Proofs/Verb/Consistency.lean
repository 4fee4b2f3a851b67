import CrowdPad.Proofs.Verb.Build

/-! Tables from declarations. A table is built exactly where what was declared is consistent, and in
it every synonym leads to the verb that its target leads to, through any number of synonyms. -/

namespace CrowdPad

/-- One thing that a profile declares. -/
inductive Declaration where
  | verb (v : Verb)
  | synonym (word target : String)
  | weight (word : String) (share : UInt32)
deriving Repr, DecidableEq

namespace Declaration

def verb? : Declaration → Option Verb
  | .verb v => some v
  | _ => none

/-- The synonym with its target, both in lower case. -/
def synonym? : Declaration → Option (String × String)
  | .synonym word target => some (Text.lower word, Text.lower target)
  | _ => none

/-- The weight with its name in lower case; a weight of zero declares nothing. -/
def weight? : Declaration → Option (String × UInt32)
  | .weight word share => if 0 < share then some (Text.lower word, share) else none
  | _ => none

end Declaration

namespace Declarations

/-- Declares one more thing. -/
def declare (d : Declarations) : Declaration → Declarations
  | .verb v => d.addVerb v
  | .synonym word target => d.addSynonym word target
  | .weight word share => d.addWeight word share

/-- The declarations of a profile, one behind the other. -/
def ofList (profile : String) (declared : List Declaration) : Declarations :=
  declared.foldl declare { profile }

theorem foldl_declare (d : Declarations) (declared : List Declaration) :
    declared.foldl declare d = {
      profile := d.profile
      verbs := d.verbs ++ declared.filterMap Declaration.verb?
      synonyms := d.synonyms ++ declared.filterMap Declaration.synonym?
      weights := d.weights ++ declared.filterMap Declaration.weight? } := by
  induction declared generalizing d with
  | nil => simp
  | cons declaration rest ih =>
      rw [List.foldl_cons, ih]
      cases declaration with
      | verb v =>
          simp [declare, addVerb, List.filterMap_cons, Declaration.verb?, Declaration.synonym?,
            Declaration.weight?]
      | synonym word target =>
          simp [declare, addSynonym, List.filterMap_cons, Declaration.verb?, Declaration.synonym?,
            Declaration.weight?]
      | weight word share =>
          by_cases hshare : 0 < share
          all_goals
            simp [declare, addWeight, hshare, List.filterMap_cons, Declaration.verb?,
              Declaration.synonym?, Declaration.weight?]

theorem ofList_eq (profile : String) (declared : List Declaration) : ofList profile declared = {
    profile
    verbs := declared.filterMap Declaration.verb?
    synonyms := declared.filterMap Declaration.synonym?
    weights := declared.filterMap Declaration.weight? } :=
  foldl_declare _ declared

/-- The names of the declared verbs, in lower case. -/
def verbNames (declared : List Declaration) : List String :=
  (declared.filterMap Declaration.verb?).map fun v => v.lowered.name

/-- The declared synonyms with their targets, in lower case. -/
def synonymPairs (declared : List Declaration) : List (String × String) :=
  declared.filterMap Declaration.synonym?

/-- Whether what is declared fits together. -/
structure Consistent (declared : List Declaration) : Prop where
  passes : ∀ v, .verb v ∈ declared → v.lowered.fault? = none
  apart : (verbNames declared).Nodup
  /-- The target of a synonym is a verb, or a synonym that stands before it. -/
  known : ∀ before behind word target, declared = before ++ .synonym word target :: behind →
    Text.lower target ∈ verbNames declared ∨
      Text.lower target ∈ (synonymPairs before).map (·.1)
  /-- A synonym that is the name of a verb leads to that verb. -/
  itself : ∀ word target name, .synonym word target ∈ declared →
    Text.lower word ∈ verbNames declared →
    Leads (verbNames declared) (synonymPairs declared) (Text.lower target) name →
      name = Text.lower word
  single : ∀ word target name other, .synonym word target ∈ declared →
    Leads (verbNames declared) (synonymPairs declared) (Text.lower word) name →
    Leads (verbNames declared) (synonymPairs declared) (Text.lower word) other → name = other
  weighs : ∀ word share, .weight word share ∈ declared → 0 < share →
    Text.lower word ∈ verbNames declared ∨
      Text.lower word ∈ (synonymPairs declared).map (·.1)

/-- Whether a table says what was declared. -/
structure Sound (declared : List Declaration) (t : VerbTable) : Prop where
  verbs : t.verbs = (declared.filterMap Declaration.verb?).map Verb.lowered
  resolves : ∀ word v, t.resolve? word = some v ↔
    v ∈ t.verbs ∧ Leads (verbNames declared) (synonymPairs declared) (Text.lower word) v.name
  agrees : ∀ word target, .synonym word target ∈ declared →
    ∃ v ∈ t.verbs, t.resolve? word = some v ∧ t.resolve? target = some v
  disjoint : ∀ word ∈ t.synonyms.map (·.1), word ∉ t.verbs.map (·.name)
  finds : ∀ v ∈ t.verbs, t.get? v.name = some v
  weighs : ∀ entry ∈ t.weights, 0 < entry.2 ∧ ∃ v ∈ t.verbs, v.name = entry.1

section Tables

variable {profile : String} {declared : List Declaration} {t : VerbTable}

theorem mem_verbs_iff {v : Verb} :
    v ∈ declared.filterMap Declaration.verb? ↔ .verb v ∈ declared := by
  rw [List.mem_filterMap]
  constructor
  · rintro ⟨declaration, hmem, hv⟩
    cases declaration with
    | verb v' => exact Option.some.inj hv ▸ hmem
    | synonym word target => cases hv
    | weight word share => cases hv
  · exact fun hmem => ⟨_, hmem, rfl⟩

theorem mem_synonymPairs {word target : String} (h : .synonym word target ∈ declared) :
    (Text.lower word, Text.lower target) ∈ synonymPairs declared :=
  List.mem_filterMap.mpr ⟨_, h, rfl⟩

/-- A pair that was declared comes from a synonym, with the pairs before it before it. -/
theorem exists_of_synonymPairs_eq {before behind : List (String × String)} {word target : String}
    (h : synonymPairs declared = before ++ (word, target) :: behind) :
    ∃ first last word' target', declared = first ++ .synonym word' target' :: last ∧
      synonymPairs first = before ∧ Text.lower word' = word ∧ Text.lower target' = target := by
  obtain ⟨first, rest, rfl, hfirst, hrest⟩ := List.filterMap_eq_append_iff.mp h
  obtain ⟨skipped, declaration, last, rfl, hskipped, hpair, -⟩ :=
    List.filterMap_eq_cons_iff.mp hrest
  cases declaration with
  | verb v => cases hpair
  | weight word share => cases hpair
  | synonym word' target' =>
      cases hpair
      refine ⟨first ++ skipped, last, word', target', by simp, ?_, rfl, rfl⟩
      rw [synonymPairs, List.filterMap_append, hfirst, List.filterMap_eq_nil_iff.mpr hskipped,
        List.append_nil]

theorem verbNames_eq :
    ((declared.filterMap Declaration.verb?).map Verb.lowered).map (·.name) = verbNames declared :=
  List.map_map ..

theorem names_eq (hverbs : t.verbs = (declared.filterMap Declaration.verb?).map Verb.lowered) :
    t.verbs.map (·.name) = verbNames declared := by
  rw [hverbs, verbNames_eq]

/-- A table is built in three steps, each from what is declared of its kind. -/
theorem build_eq_ok_iff : (ofList profile declared).build = .ok t ↔
    t.profile = profile ∧
    checkVerbs [] (declared.filterMap Declaration.verb?) = .ok t.verbs ∧
    checkSynonyms (t.verbs.map (·.name)) [] (synonymPairs declared) = .ok t.synonyms ∧
    checkWeights (t.verbs.map (·.name)) t.synonyms (declared.filterMap Declaration.weight?) =
      .ok t.weights := by
  rw [ofList_eq]
  constructor
  · intro h
    obtain ⟨verbs, hverbs, h⟩ := exists_of_bind_eq_ok h
    obtain ⟨synonyms, hsynonyms, h⟩ := exists_of_bind_eq_ok h
    obtain ⟨weights, hweights, h⟩ := exists_of_bind_eq_ok h
    cases h
    exact ⟨rfl, hverbs, hsynonyms, hweights⟩
  · rintro ⟨rfl, hverbs, hsynonyms, hweights⟩
    refine (bind_of_eq_ok hverbs _).trans ?_
    refine (bind_of_eq_ok hsynonyms _).trans ?_
    exact bind_of_eq_ok hweights _

/-- What a word names is the verb under the name that the word stands for. -/
theorem resolve?_eq (t : VerbTable) (word : String) : t.resolve? word =
    (verbOf? (t.verbs.map (·.name)) t.synonyms (Text.lower word)).bind t.get? := by
  rw [VerbTable.resolve?]
  cases hget : t.get? (Text.lower word) with
  | some v =>
      have hmem : Text.lower word ∈ t.verbs.map (·.name) :=
        List.mem_map.mpr ⟨v, VerbTable.mem_of_get? hget, VerbTable.name_of_get? hget⟩
      rw [verbOf?_of_mem hmem, Option.bind_some, hget]
  | none =>
      have hmem : Text.lower word ∉ t.verbs.map (·.name) := by
        intro hmem
        obtain ⟨v, hv, hname⟩ := List.mem_map.mp hmem
        exact List.find?_eq_none.mp hget v hv (beq_iff_eq.mpr hname)
      rw [verbOf?_of_not_mem hmem]

theorem mem_weights_iff {word : String} {share : UInt32} :
    (word, share) ∈ declared.filterMap Declaration.weight? ↔
      0 < share ∧ ∃ word', .weight word' share ∈ declared ∧ Text.lower word' = word := by
  rw [List.mem_filterMap]
  constructor
  · rintro ⟨declaration, hmem, hweight⟩
    cases declaration with
    | verb v => cases hweight
    | synonym word' target => cases hweight
    | weight word' share' =>
        rw [Declaration.weight?] at hweight
        split at hweight
        · cases hweight
          exact ⟨‹_›, word', hmem, rfl⟩
        · cases hweight
  · rintro ⟨hshare, word', hmem, rfl⟩
    exact ⟨_, hmem, if_pos hshare⟩

/-- A table that is built keeps what was checked of its synonyms. -/
theorem checked_of_build (h : (ofList profile declared).build = .ok t) :
    t.verbs = (declared.filterMap Declaration.verb?).map Verb.lowered ∧
      Checked (verbNames declared) [] (synonymPairs declared) t.synonyms ∧
      ∀ word name, verbOf? (verbNames declared) t.synonyms word = some name →
        Leads (verbNames declared) (synonymPairs declared) word name := by
  obtain ⟨-, hverbs, hsynonyms, -⟩ := build_eq_ok_iff.mp h
  obtain ⟨hall, -, -⟩ := checkVerbs_nil_eq_ok_iff.mp hverbs
  rw [names_eq hall] at hsynonyms
  refine ⟨hall, checked_of_checkSynonyms hsynonyms nofun, fun word name hword => ?_⟩
  exact leads_of_checkSynonyms hsynonyms nofun (fun _ _ => leads_of_verbOf?_nil)
    (fun _ hpair => hpair) hword

theorem consistent_of_build (h : (ofList profile declared).build = .ok t) :
    Consistent declared := by
  obtain ⟨hall, hchecked, hleads⟩ := checked_of_build h
  obtain ⟨-, hverbs, -, hweights⟩ := build_eq_ok_iff.mp h
  obtain ⟨-, hfaults, hnodup⟩ := checkVerbs_nil_eq_ok_iff.mp hverbs
  rw [names_eq hall] at hweights
  refine ⟨fun v hv => hfaults v (mem_verbs_iff.mpr hv), ?_, ?_, ?_, ?_, ?_⟩
  · rw [verbNames_eq] at hnodup
    exact hnodup
  · rintro before behind word target hsplit
    have hpairs : synonymPairs declared =
        synonymPairs before ++ (Text.lower word, Text.lower target) :: synonymPairs behind := by
      rw [hsplit, synonymPairs, List.filterMap_append]
      rfl
    rcases hchecked.known _ _ _ _ hpairs with hverb | hnone | hbefore
    · exact .inl hverb
    · cases hnone
    · exact .inr hbefore
  · intro word target name hmem hverb hname
    obtain ⟨reached, -, hword, htarget⟩ := hchecked.agrees _ (mem_synonymPairs hmem)
    rw [verbOf?_of_mem hverb] at hword
    rw [hchecked.verbOf?_of_leads hname] at htarget
    exact Option.some.inj (htarget.trans hword.symm)
  · intro word target name other hmem hname hother
    exact Option.some.inj ((hchecked.verbOf?_of_leads hname).symm.trans
      (hchecked.verbOf?_of_leads hother))
  · intro word share hmem hshare
    have hentry := mem_weights_iff.mpr ⟨hshare, word, hmem, rfl⟩
    obtain ⟨name, hname⟩ :=
      Option.ne_none_iff_exists'.mp (exists_checkWeights_iff.mp ⟨_, hweights⟩ _ hentry)
    cases hleads _ _ hname with
    | verb hverb => exact .inl hverb
    | synonym hpair htarget => exact .inr (List.mem_map_of_mem hpair)

namespace Consistent

/-- No word at all leads to two verbs. -/
theorem leads_unique (h : Consistent declared) {word name other : String}
    (hname : Leads (verbNames declared) (synonymPairs declared) word name)
    (hother : Leads (verbNames declared) (synonymPairs declared) word other) : name = other := by
  by_cases hsynonym : word ∈ (synonymPairs declared).map (·.1)
  · obtain ⟨pair, hpair, rfl⟩ := List.mem_map.mp hsynonym
    obtain ⟨declaration, hmem, hdeclaration⟩ := List.mem_filterMap.mp hpair
    cases declaration with
    | verb v => cases hdeclaration
    | weight word share => cases hdeclaration
    | synonym word target =>
        cases hdeclaration
        exact h.single word target name other hmem hname hother
  · cases hname with
    | synonym hpair _ => exact absurd (List.mem_map_of_mem hpair) hsynonym
    | verb hverb =>
        cases hother with
        | synonym hpair _ => exact absurd (List.mem_map_of_mem hpair) hsynonym
        | verb _ => rfl

theorem exists_build (h : Consistent declared) (profile : String) :
    ∃ t, (ofList profile declared).build = .ok t := by
  have hverbs : checkVerbs [] (declared.filterMap Declaration.verb?) =
      .ok ((declared.filterMap Declaration.verb?).map Verb.lowered) := by
    refine checkVerbs_nil_eq_ok_iff.mpr ⟨rfl, fun v hv => h.passes v (mem_verbs_iff.mp hv), ?_⟩
    rw [verbNames_eq]
    exact h.apart
  obtain ⟨synonyms, hsynonyms⟩ : ∃ synonyms,
      checkSynonyms (verbNames declared) [] (synonymPairs declared) = .ok synonyms := by
    refine exists_checkSynonyms (List.nil_append _) ?_ (fun _ _ _ => h.leads_unique) nofun
      (fun _ _ => leads_of_verbOf?_nil) nofun
    intro before behind word target hsplit
    obtain ⟨first, last, word', target', hdeclared, rfl, -, rfl⟩ :=
      exists_of_synonymPairs_eq hsplit.symm
    exact h.known first last word' target' hdeclared
  have hchecked := checked_of_checkSynonyms hsynonyms nofun
  obtain ⟨weights, hweights⟩ : ∃ weights, checkWeights (verbNames declared) synonyms
      (declared.filterMap Declaration.weight?) = .ok weights := by
    refine exists_checkWeights_iff.mpr fun entry hentry => ?_
    obtain ⟨hshare, word, hmem, hword⟩ := mem_weights_iff.mp hentry
    rw [← hword]
    rcases h.weighs word entry.2 hmem hshare with hverb | hsynonym
    · rw [verbOf?_of_mem hverb]
      exact Option.some_ne_none _
    · obtain ⟨pair, hpair, hsame⟩ := List.mem_map.mp hsynonym
      obtain ⟨name, -, hname, -⟩ := hchecked.agrees pair hpair
      rw [← hsame, hname]
      exact Option.some_ne_none _
  refine ⟨{ profile, verbs := _, synonyms, weights }, build_eq_ok_iff.mpr
    ⟨rfl, hverbs, ?_, ?_⟩⟩
  · rw [names_eq rfl]
    exact hsynonyms
  · rw [names_eq rfl]
    exact hweights

end Consistent

theorem sound_of_build (h : (ofList profile declared).build = .ok t) : Sound declared t := by
  obtain ⟨hall, hchecked, hleads⟩ := checked_of_build h
  obtain ⟨-, -, -, hweights⟩ := build_eq_ok_iff.mp h
  have hfinds : ∀ v ∈ t.verbs, t.get? v.name = some v := fun v hv =>
    (distinct_of_build h).get?_name hv
  rw [names_eq hall] at hweights
  -- what a word stands for is the name of a verb, which is found under it
  have hresolve : ∀ word v, t.resolve? word = some v ↔
      v ∈ t.verbs ∧ verbOf? (verbNames declared) t.synonyms (Text.lower word) = some v.name := by
    intro word v
    rw [resolve?_eq, names_eq hall, Option.bind_eq_some_iff]
    constructor
    · rintro ⟨name, hname, hget⟩
      rw [VerbTable.name_of_get? hget]
      exact ⟨VerbTable.mem_of_get? hget, hname⟩
    · rintro ⟨hv, hname⟩
      exact ⟨v.name, hname, hfinds v hv⟩
  have hverb : ∀ name ∈ verbNames declared, ∃ v ∈ t.verbs, v.name = name := by
    intro name hname
    rw [← names_eq hall] at hname
    exact List.mem_map.mp hname
  exact {
    verbs := hall
    resolves := by
      intro word v
      rw [hresolve]
      exact and_congr_right fun _ => ⟨hleads _ _, hchecked.verbOf?_of_leads⟩
    agrees := by
      intro word target hmem
      obtain ⟨name, hname, hword, htarget⟩ := hchecked.agrees _ (mem_synonymPairs hmem)
      obtain ⟨v, hv, rfl⟩ := hverb name hname
      exact ⟨v, hv, (hresolve word v).mpr ⟨hv, hword⟩, (hresolve target v).mpr ⟨hv, htarget⟩⟩
    disjoint := by
      intro word hword
      obtain ⟨entry, hentry, rfl⟩ := List.mem_map.mp hword
      rw [names_eq hall]
      exact (hchecked.straight entry hentry).1
    finds := hfinds
    weighs := by
      intro entry hentry
      obtain ⟨word, hmem, hname⟩ := exists_of_checkWeights hweights hentry
      exact ⟨(mem_weights_iff.mp hmem).1, hverb _ (hchecked.straight.mem_of_verbOf? hname)⟩ }

/-- **Consistent declarations.** Whatever a profile declares, in any order, a table is built exactly
where the declarations are consistent, and the table says what they say: a word resolves to the verb
it leads to, a synonym to the same verb as its target, no synonym is a verb, every verb is found
under its name, and every random weight is that of a verb. -/
theorem build_iff_consistent (profile : String) (declared : List Declaration) :
    ((∃ t, (ofList profile declared).build = .ok t) ↔ Consistent declared) ∧
      ∀ t, (ofList profile declared).build = .ok t → Sound declared t :=
  ⟨⟨fun ⟨_, h⟩ => consistent_of_build h, fun h => h.exists_build profile⟩,
    fun _ h => sound_of_build h⟩

/-- A jump with a synonym of a synonym and a random weight under the latter. -/
def leaping : List Declaration :=
  [.synonym "hop" "Jump", .verb { name := "JUMP", key := "a", defaultMs := 250 },
    .synonym "LEAP" "hop", .synonym "jump" "leap", .weight "Leap" 3]

theorem build_iff_consistent_leaping : ∃ t, (ofList "sample" leaping).build = .ok t ∧
    Consistent leaping ∧ Sound leaping t := by
  obtain ⟨hconsistent, hsound⟩ := build_iff_consistent "sample" leaping
  have hbuild : (ofList "sample" leaping).build = .ok {
      profile := "sample"
      verbs := [{ name := "jump", key := "a", defaultMs := 250 }]
      synonyms := [("hop", "jump"), ("leap", "jump")]
      weights := [("jump", 3)] } := by
    decide +kernel
  exact ⟨_, hbuild, hconsistent.mp ⟨_, hbuild⟩, hsound _ hbuild⟩

end Tables

end Declarations

end CrowdPad
