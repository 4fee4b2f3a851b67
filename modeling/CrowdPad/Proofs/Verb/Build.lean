import CrowdPad.Proofs.Data.Entries
import CrowdPad.Proofs.Verb.Table

/-! How declarations are checked. Verbs are accepted unless one has a fault or a name comes twice. A
synonym is accepted where its target stands for a verb and the synonym stands for that verb already
or for none yet. -/

namespace CrowdPad

/-- The verb under its name in lower case. -/
def Verb.lowered (v : Verb) : Verb := { v with name := Text.lower v.name }

namespace Declarations

/-! ### Verbs -/

section Verbs

variable {accepted declared verbs : List Verb}

theorem checkVerbs_cons_eq_ok {v : Verb} : checkVerbs accepted (v :: declared) = .ok verbs ↔
    v.lowered.fault? = none ∧ v.lowered.name ∉ accepted.map (·.name) ∧
      checkVerbs (accepted ++ [v.lowered]) declared = .ok verbs := by
  have hnew : (accepted.any fun other => other.name == v.lowered.name) = true ↔
      v.lowered.name ∈ accepted.map (·.name) := by
    simp [List.any_eq_true]
  rw [checkVerbs]
  cases hfault : v.lowered.fault? with
  | some fault =>
      simp only [Verb.lowered] at hfault
      simp [hfault]
  | none =>
      simp only [Verb.lowered] at hfault hnew
      simp only [hfault, hnew, Verb.lowered]
      split
      · rename_i hmem
        simp [hmem]
      · rename_i hmem
        simp [hmem]

/-- Verbs are accepted where none has a fault and no two have one name, and all of them are. -/
theorem checkVerbs_eq_ok_iff (haccepted : (accepted.map (·.name)).Nodup) :
    checkVerbs accepted declared = .ok verbs ↔
      verbs = accepted ++ declared.map Verb.lowered ∧
        (∀ v ∈ declared, v.lowered.fault? = none) ∧
          ((accepted ++ declared.map Verb.lowered).map (·.name)).Nodup := by
  induction declared generalizing accepted with
  | nil =>
      rw [checkVerbs, List.map_nil, List.append_nil]
      constructor
      · intro h
        exact ⟨(Except.ok.inj h).symm, fun _ hmem => absurd hmem List.not_mem_nil, haccepted⟩
      · rintro ⟨rfl, -⟩
        rfl
  | cons v rest ih =>
      have happend : accepted ++ (v :: rest).map Verb.lowered =
          accepted ++ [v.lowered] ++ rest.map Verb.lowered := by
        simp
      have hnodup : ((accepted ++ [v.lowered]).map (·.name)).Nodup ↔
          v.lowered.name ∉ accepted.map (·.name) := by
        rw [List.map_append, List.map_singleton, List.nodup_append]
        constructor
        · rintro ⟨-, -, hne⟩ hmem
          exact hne _ hmem _ (List.mem_singleton_self _) rfl
        · rintro hnew
          refine ⟨haccepted, List.pairwise_singleton _ _, ?_⟩
          rintro _ hmem _ hname rfl
          exact hnew (List.mem_singleton.mp hname ▸ hmem)
      rw [checkVerbs_cons_eq_ok, happend, List.forall_mem_cons]
      constructor
      · rintro ⟨hfault, hnew, hrest⟩
        obtain ⟨rfl, hfaults, hall⟩ := (ih (hnodup.mpr hnew)).mp hrest
        exact ⟨rfl, ⟨hfault, hfaults⟩, hall⟩
      · rintro ⟨rfl, ⟨hfault, hfaults⟩, hall⟩
        have hfirst : ((accepted ++ [v.lowered]).map (·.name)).Nodup := by
          rw [List.map_append] at hall
          exact (List.nodup_append.mp hall).1
        exact ⟨hfault, hnodup.mp hfirst, (ih hfirst).mpr ⟨rfl, hfaults, hall⟩⟩

theorem checkVerbs_nil_eq_ok_iff : checkVerbs [] declared = .ok verbs ↔
    verbs = declared.map Verb.lowered ∧ (∀ v ∈ declared, v.lowered.fault? = none) ∧
      ((declared.map Verb.lowered).map (·.name)).Nodup :=
  checkVerbs_eq_ok_iff List.nodup_nil

end Verbs

/-! ### Synonyms -/

/-- The verb that a word stands for, directly or as one of these synonyms. -/
def verbOf? (names : List String) (synonyms : List (String × String)) (word : String) :
    Option String :=
  if names.contains word then some word else synonyms.lookup word

/-- Where a word leads: a verb to itself, and a synonym where its target leads. -/
inductive Leads (names : List String) (pairs : List (String × String)) : String → String → Prop
  | verb {name : String} (hname : name ∈ names) : Leads names pairs name name
  | synonym {word target name : String} (hpair : (word, target) ∈ pairs)
      (htarget : Leads names pairs target name) : Leads names pairs word name

section Synonyms

variable {names : List String} {accepted pairs result : List (String × String)}
  {word target name other : String}

/-- Whether accepted synonyms stand for verbs and are none themselves. -/
def Straight (names : List String) (synonyms : List (String × String)) : Prop :=
  ∀ entry ∈ synonyms, entry.1 ∉ names ∧ entry.2 ∈ names

theorem verbOf?_of_mem (h : word ∈ names) : verbOf? names accepted word = some word :=
  if_pos (List.contains_iff_mem.mpr h)

theorem verbOf?_of_not_mem (h : word ∉ names) :
    verbOf? names accepted word = accepted.lookup word :=
  if_neg (mt List.contains_iff_mem.mp h)

theorem verbOf?_eq_none_iff : verbOf? names accepted word = none ↔
    word ∉ names ∧ word ∉ accepted.map (·.1) := by
  by_cases hmem : word ∈ names
  · simp [verbOf?_of_mem hmem, hmem]
  · rw [verbOf?_of_not_mem hmem, lookup_eq_none_iff_not_mem_keys]
    simp [hmem]

theorem Straight.mem_of_verbOf? (h : Straight names accepted)
    (hword : verbOf? names accepted word = some name) : name ∈ names := by
  by_cases hmem : word ∈ names
  · rw [verbOf?_of_mem hmem] at hword
    exact Option.some.inj hword ▸ hmem
  · rw [verbOf?_of_not_mem hmem] at hword
    exact (h _ (mem_of_lookup hword)).2

/-- A new synonym at the end changes what that word stands for and nothing else. -/
theorem verbOf?_append (hnew : verbOf? names accepted word = none) (other : String) :
    verbOf? names (accepted ++ [(word, name)]) other =
      if other = word then some name else verbOf? names accepted other := by
  obtain ⟨hnames, hkeys⟩ := verbOf?_eq_none_iff.mp hnew
  split
  · rename_i hsame
    subst hsame
    rw [verbOf?_of_not_mem hnames, List.lookup_append,
      lookup_eq_none_iff_not_mem_keys.mpr hkeys]
    simp
  · rename_i hother
    by_cases hmem : other ∈ names
    · rw [verbOf?_of_mem hmem, verbOf?_of_mem hmem]
    · rw [verbOf?_of_not_mem hmem, verbOf?_of_not_mem hmem, List.lookup_append]
      have hne : (other == word) = false := beq_eq_false_iff_ne.mpr hother
      simp [List.lookup_cons, hne]

/-- Before a synonym is accepted a verb stands for itself, and nothing else stands for one. -/
theorem leads_of_verbOf?_nil (hword : verbOf? names [] word = some name) :
    Leads names pairs word name := by
  by_cases hmem : word ∈ names
  · rw [verbOf?_of_mem hmem] at hword
    exact Option.some.inj hword ▸ .verb hmem
  · rw [verbOf?_of_not_mem hmem] at hword
    cases hword

/-- Words stand only for verbs to which they lead, also with a new synonym at the end that leads to
its own. -/
theorem leads_of_verbOf?_append (hnew : verbOf? names accepted word = none)
    (hword : Leads names pairs word name)
    (hleads : ∀ word name, verbOf? names accepted word = some name → Leads names pairs word name)
    (word' name' : String)
    (hother : verbOf? names (accepted ++ [(word, name)]) word' = some name') :
    Leads names pairs word' name' := by
  rw [verbOf?_append hnew] at hother
  split at hother
  · rename_i hsame
    cases hother
    exact hsame ▸ hword
  · exact hleads _ _ hother

theorem Straight.append (h : Straight names accepted)
    (hnew : verbOf? names accepted word = none) (hname : name ∈ names) :
    Straight names (accepted ++ [(word, name)]) := by
  intro entry hentry
  rcases List.mem_append.mp hentry with hold | hlast
  · exact h entry hold
  · rw [List.mem_singleton.mp hlast]
    exact ⟨(verbOf?_eq_none_iff.mp hnew).1, hname⟩

/-- What one more synonym can come to: its target stands for a verb, and the synonym stands for that
verb already or for none yet. -/
theorem checkSynonyms_cons_eq_ok (h : Straight names accepted) :
    checkSynonyms names accepted ((word, target) :: pairs) = .ok result ↔
      ∃ name, verbOf? names accepted target = some name ∧
        (verbOf? names accepted word = some name ∧ checkSynonyms names accepted pairs = .ok result ∨
          verbOf? names accepted word = none ∧
            checkSynonyms names (accepted ++ [(word, name)]) pairs = .ok result) := by
  have htargets : (if names.contains target then some target else accepted.lookup target) =
      verbOf? names accepted target := rfl
  simp only [checkSynonyms, htargets]
  cases htarget : verbOf? names accepted target with
  | none => simp
  | some name =>
      have hname := h.mem_of_verbOf? htarget
      simp only [Option.some.injEq, exists_eq_left']
      by_cases hself : word = name
      · subst hself
        simp [verbOf?_of_mem hname]
      · rw [if_neg hself]
        by_cases hmem : word ∈ names
        · simp [verbOf?_of_mem hmem, hmem, hself]
        · rw [verbOf?_of_not_mem hmem, if_neg (mt List.contains_iff_mem.mp hmem)]
          cases hlookup : accepted.lookup word with
          | none => simp
          | some other =>
              by_cases hsame : other = name
              · simp [hsame]
              · simp [hsame]

/-- What checked synonyms come to: what stood for a verb before still does, and each new synonym
stands for the verb that its target stands for. -/
structure Checked (names : List String) (accepted pairs result : List (String × String)) :
    Prop where
  straight : Straight names result
  keeps : ∀ word name, verbOf? names accepted word = some name →
    verbOf? names result word = some name
  agrees : ∀ pair ∈ pairs, ∃ name ∈ names, verbOf? names result pair.1 = some name ∧
    verbOf? names result pair.2 = some name
  known : ∀ before behind word target, pairs = before ++ (word, target) :: behind →
    target ∈ names ∨ target ∈ accepted.map (·.1) ∨ target ∈ before.map (·.1)

theorem checked_of_checkSynonyms (h : checkSynonyms names accepted pairs = .ok result)
    (haccepted : Straight names accepted) : Checked names accepted pairs result := by
  induction pairs generalizing accepted with
  | nil =>
      cases h
      exact ⟨haccepted, fun _ _ h => h, nofun, by simp⟩
  | cons pair rest ih =>
      obtain ⟨word, target⟩ := pair
      obtain ⟨name, htarget, hnext⟩ := (checkSynonyms_cons_eq_ok haccepted).mp h
      have hname := haccepted.mem_of_verbOf? htarget
      -- whether the synonym is new or not, the rest is checked with it standing for the verb
      obtain ⟨next, hstraight, hkeeps, hword, hkeys, hrest⟩ : ∃ next, Straight names next ∧
          (∀ word name, verbOf? names accepted word = some name →
            verbOf? names next word = some name) ∧
          verbOf? names next word = some name ∧
          (∀ other ∈ next.map (·.1), other ∈ accepted.map (·.1) ∨ other = word) ∧
          checkSynonyms names next rest = .ok result := by
        rcases hnext with ⟨hword, hrest⟩ | ⟨hnew, hrest⟩
        · exact ⟨accepted, haccepted, fun _ _ h => h, hword, fun _ h => .inl h, hrest⟩
        · refine ⟨_, haccepted.append hnew hname, ?_, ?_, ?_, hrest⟩
          · intro other name' hother
            rw [verbOf?_append hnew, if_neg ?_]
            · exact hother
            · rintro rfl
              rw [hnew] at hother
              cases hother
          · rw [verbOf?_append hnew, if_pos rfl]
          · simp
      have hchecked := ih hrest hstraight
      refine ⟨hchecked.straight, fun _ _ h => hchecked.keeps _ _ (hkeeps _ _ h), ?_, ?_⟩
      · rw [List.forall_mem_cons]
        exact ⟨⟨name, hname, hchecked.keeps _ _ hword, hchecked.keeps _ _ (hkeeps _ _ htarget)⟩,
          hchecked.agrees⟩
      · rintro before behind word' target' hsplit
        cases before with
        | nil =>
            cases hsplit
            by_contra hunknown
            simp only [not_or] at hunknown
            rw [verbOf?_eq_none_iff.mpr ⟨hunknown.1, hunknown.2.1⟩] at htarget
            cases htarget
        | cons first before =>
            cases hsplit
            rcases hchecked.known before behind word' target' rfl with hverb | hold | hbefore
            · exact .inl hverb
            · rcases hkeys _ hold with hold | rfl
              · exact .inr (.inl hold)
              · exact .inr (.inr (List.mem_cons_self ..))
            · exact .inr (.inr (List.mem_cons_of_mem _ hbefore))

/-- Every word leads where it stands. -/
theorem Checked.verbOf?_of_leads (h : Checked names [] pairs result)
    (hleads : Leads names pairs word name) : verbOf? names result word = some name := by
  induction hleads with
  | verb hname => exact verbOf?_of_mem hname
  | synonym hpair _ ih =>
      obtain ⟨name', -, hword, htarget⟩ := h.agrees _ hpair
      rw [hword, ← htarget, ih]

/-- A word stands only for a verb to which it leads. -/
theorem leads_of_checkSynonyms {declared : List (String × String)}
    (h : checkSynonyms names accepted pairs = .ok result) (haccepted : Straight names accepted)
    (hleads : ∀ word name, verbOf? names accepted word = some name → Leads names declared word name)
    (hpairs : ∀ pair ∈ pairs, pair ∈ declared) (hword : verbOf? names result word = some name) :
    Leads names declared word name := by
  induction pairs generalizing accepted with
  | nil =>
      cases h
      exact hleads _ _ hword
  | cons pair rest ih =>
      rw [List.forall_mem_cons] at hpairs
      obtain ⟨first, target⟩ := pair
      obtain ⟨reached, htarget, hnext⟩ := (checkSynonyms_cons_eq_ok haccepted).mp h
      rcases hnext with ⟨-, hrest⟩ | ⟨hnew, hrest⟩
      · exact ih hrest haccepted hleads hpairs.2
      · have hfirst := Leads.synonym hpairs.1 (hleads _ _ htarget)
        exact ih hrest (haccepted.append hnew (haccepted.mem_of_verbOf? htarget))
          (leads_of_verbOf?_append hnew hfirst hleads) hpairs.2

/-- Synonyms are accepted where each has a target that is known by then, and no word leads to two
verbs. -/
theorem exists_checkSynonyms {before : List (String × String)}
    (hsplit : before ++ pairs = result)
    (hknown : ∀ before behind word target, before ++ (word, target) :: behind = result →
      target ∈ names ∨ target ∈ before.map (·.1))
    (hone : ∀ word name other, Leads names result word name → Leads names result word other →
      name = other)
    (haccepted : Straight names accepted)
    (hleads : ∀ word name, verbOf? names accepted word = some name → Leads names result word name)
    (hbefore : ∀ word ∈ before.map (·.1), verbOf? names accepted word ≠ none) :
    ∃ synonyms, checkSynonyms names accepted pairs = .ok synonyms := by
  induction pairs generalizing accepted before with
  | nil => exact ⟨accepted, rfl⟩
  | cons pair rest ih =>
      obtain ⟨word, target⟩ := pair
      have hne : verbOf? names accepted target ≠ none := by
        rcases hknown before rest word target hsplit with hverb | hsynonym
        · rw [verbOf?_of_mem hverb]
          exact Option.some_ne_none _
        · exact hbefore target hsynonym
      obtain ⟨name, htarget⟩ := Option.ne_none_iff_exists'.mp hne
      have hword : Leads names result word name := by
        refine .synonym ?_ (hleads _ _ htarget)
        rw [← hsplit]
        exact List.mem_append_right _ (List.mem_cons_self ..)
      have hsplit' : before ++ [(word, target)] ++ rest = result := by
        rw [List.append_assoc, List.singleton_append, hsplit]
      cases hold : verbOf? names accepted word with
      | some other =>
          obtain rfl := hone word name other hword (hleads _ _ hold)
          obtain ⟨synonyms, hrest⟩ := ih hsplit' haccepted hleads (by
            intro other hother
            rw [List.map_append, List.mem_append, List.map_singleton, List.mem_singleton] at hother
            rcases hother with hother | rfl
            · exact hbefore other hother
            · exact hold ▸ Option.some_ne_none _)
          exact ⟨synonyms, (checkSynonyms_cons_eq_ok haccepted).mpr
            ⟨name, htarget, .inl ⟨hold, hrest⟩⟩⟩
      | none =>
          have hstraight := haccepted.append hold (haccepted.mem_of_verbOf? htarget)
          have hnext := leads_of_verbOf?_append hold hword hleads
          obtain ⟨synonyms, hrest⟩ := ih hsplit' hstraight hnext (by
            intro other hother
            rw [List.map_append, List.mem_append, List.map_singleton, List.mem_singleton] at hother
            rw [verbOf?_append hold]
            split
            · exact Option.some_ne_none _
            · rename_i hne
              exact hbefore other (hother.resolve_right hne))
          exact ⟨synonyms, (checkSynonyms_cons_eq_ok haccepted).mpr
            ⟨name, htarget, .inr ⟨hold, hrest⟩⟩⟩

end Synonyms

/-! ### Random weights -/

section Weights

variable {names : List String} {synonyms : List (String × String)}
  {declared weights : List (String × UInt32)}

theorem checkWeights_cons_eq_ok {word : String} {share : UInt32} :
    checkWeights names synonyms ((word, share) :: declared) = .ok weights ↔
      ∃ name rest, verbOf? names synonyms word = some name ∧
        checkWeights names synonyms declared = .ok rest ∧ weights = (name, share) :: rest := by
  have hwords : (if names.contains word then some word else synonyms.lookup word) =
      verbOf? names synonyms word := rfl
  simp only [checkWeights, hwords]
  cases hword : verbOf? names synonyms word with
  | none => simp
  | some name =>
      constructor
      · intro h
        obtain ⟨rest, hrest, h⟩ := exists_of_bind_eq_ok h
        exact ⟨name, rest, rfl, hrest, (Except.ok.inj h).symm⟩
      · rintro ⟨name', rest, hname, hrest, rfl⟩
        cases hname
        exact bind_of_eq_ok hrest _

/-- Each weight is one that was declared, for a name that stands for its verb. -/
theorem exists_of_checkWeights (h : checkWeights names synonyms declared = .ok weights)
    {entry : String × UInt32} (hentry : entry ∈ weights) :
    ∃ word, (word, entry.2) ∈ declared ∧ verbOf? names synonyms word = some entry.1 := by
  induction declared generalizing weights with
  | nil =>
      cases h
      cases hentry
  | cons first rest ih =>
      obtain ⟨name, others, hname, hrest, rfl⟩ := checkWeights_cons_eq_ok.mp h
      rcases List.mem_cons.mp hentry with rfl | hother
      · exact ⟨first.1, List.mem_cons_self .., hname⟩
      · obtain ⟨word, hmem, hword⟩ := ih hrest hother
        exact ⟨word, List.mem_cons_of_mem _ hmem, hword⟩

theorem exists_checkWeights_iff : (∃ weights, checkWeights names synonyms declared = .ok weights) ↔
    ∀ entry ∈ declared, verbOf? names synonyms entry.1 ≠ none := by
  induction declared with
  | nil => exact ⟨fun _ => nofun, fun _ => ⟨[], rfl⟩⟩
  | cons entry rest ih =>
      rw [List.forall_mem_cons, ← ih]
      constructor
      · rintro ⟨weights, h⟩
        obtain ⟨name, others, hname, hrest, -⟩ := checkWeights_cons_eq_ok.mp h
        exact ⟨hname ▸ Option.some_ne_none _, others, hrest⟩
      · rintro ⟨hne, others, hrest⟩
        obtain ⟨name, hname⟩ := Option.ne_none_iff_exists'.mp hne
        exact ⟨_, checkWeights_cons_eq_ok.mpr ⟨name, others, hname, hrest, rfl⟩⟩

end Weights

end Declarations

end CrowdPad
