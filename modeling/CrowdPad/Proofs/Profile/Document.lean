import CrowdPad.Profile.Document
import CrowdPad.Proofs.Text.Case
import CrowdPad.Proofs.Verb.Consistency

/-! The order of what a document declares. Each synonym of a document stands for the verb of its entry and
never for another synonym, so that nothing has to be known when it is declared that is not known in the
end. In whatever order the entries stand and each of them has its synonyms, the document makes a table or
makes none, and every word has the same meaning in it. -/

namespace CrowdPad

namespace Declarations

variable {declared declared' : List Declaration} {names names' : List String}
  {pairs pairs' : List (String × String)} {word name : String}

theorem Leads.mono (h : Leads names pairs word name) (hnames : names ⊆ names')
    (hpairs : pairs ⊆ pairs') : Leads names' pairs' word name := by
  induction h with
  | verb hname => exact .verb (hnames hname)
  | synonym hpair _ ih => exact .synonym (hpairs hpair) ih

theorem perm_verbNames (h : declared.Perm declared') :
    (verbNames declared).Perm (verbNames declared') :=
  (h.filterMap Declaration.verb?).map _

theorem perm_synonymPairs (h : declared.Perm declared') :
    (synonymPairs declared).Perm (synonymPairs declared') :=
  h.filterMap Declaration.synonym?

/-- Where a word leads does not depend on the order of what is declared. -/
theorem leads_of_perm (h : declared.Perm declared')
    (hleads : Leads (verbNames declared) (synonymPairs declared) word name) :
    Leads (verbNames declared') (synonymPairs declared') word name :=
  hleads.mono (perm_verbNames h).subset (perm_synonymPairs h).subset

/-- Whether all that is declared is about verbs themselves: no synonym and no weight is declared under a
synonym of a verb. -/
structure Direct (declared : List Declaration) : Prop where
  synonym : ∀ word target, .synonym word target ∈ declared →
    Text.lower target ∈ verbNames declared
  weight : ∀ word share, .weight word share ∈ declared → Text.lower word ∈ verbNames declared

/-- What is consistent and about verbs themselves is consistent in any order. -/
theorem Consistent.of_perm (h : Consistent declared) (hdirect : Direct declared)
    (hperm : declared.Perm declared') : Consistent declared' := by
  have hnames := perm_verbNames hperm
  constructor
  · exact fun v hv => h.passes v (hperm.mem_iff.mpr hv)
  · exact hnames.nodup h.apart
  · rintro before behind word target rfl
    exact .inl (hnames.mem_iff.mp (hdirect.synonym word target (hperm.mem_iff.mpr (by simp))))
  · intro word target name hmem hverb hname
    exact h.itself word target name (hperm.mem_iff.mpr hmem) (hnames.mem_iff.mpr hverb)
      (leads_of_perm hperm.symm hname)
  · intro word target name other hmem hname hother
    exact h.single word target name other (hperm.mem_iff.mpr hmem) (leads_of_perm hperm.symm hname)
      (leads_of_perm hperm.symm hother)
  · intro word share hmem hshare
    exact .inl (hnames.mem_iff.mp (hdirect.weight word share (hperm.mem_iff.mpr hmem)))

/-- Weights that are declared for verbs themselves stay as they are. -/
theorem checkWeights_of_mem {synonyms : List (String × String)} {weights : List (String × UInt32)}
    (h : ∀ entry ∈ weights, entry.1 ∈ names) : checkWeights names synonyms weights = .ok weights := by
  induction weights with
  | nil => rfl
  | cons entry rest ih =>
      obtain ⟨hentry, hrest⟩ := List.forall_mem_cons.mp h
      exact checkWeights_cons_eq_ok.mpr ⟨entry.1, rest, verbOf?_of_mem hentry, ih hrest, rfl⟩

section Tables

variable {profile profile' : String} {t t' : VerbTable}

theorem weights_of_build (hdirect : Direct declared) (h : (ofList profile declared).build = .ok t) :
    t.weights = declared.filterMap Declaration.weight? := by
  obtain ⟨hall, -, -⟩ := checked_of_build h
  obtain ⟨-, -, -, hweights⟩ := build_eq_ok_iff.mp h
  rw [names_eq hall, checkWeights_of_mem] at hweights
  · exact (Except.ok.inj hweights).symm
  · intro entry hentry
    obtain ⟨-, word, hmem, hword⟩ := mem_weights_iff.mp hentry
    exact hword ▸ hdirect.weight word entry.2 hmem

/-- In tables of the same declarations every word names the same verb. -/
theorem resolve?_eq_of_perm (hperm : declared.Perm declared')
    (h : (ofList profile declared).build = .ok t)
    (h' : (ofList profile' declared').build = .ok t') (word : String) :
    t.resolve? word = t'.resolve? word := by
  have hsound := sound_of_build h
  have hsound' := sound_of_build h'
  have hverbs : t.verbs.Perm t'.verbs := by
    rw [hsound.verbs, hsound'.verbs]
    exact (hperm.filterMap Declaration.verb?).map _
  ext v
  rw [hsound.resolves, hsound'.resolves, hverbs.mem_iff]
  exact and_congr_right fun _ => ⟨leads_of_perm hperm, leads_of_perm hperm.symm⟩

end Tables

end Declarations

/-- How often a verb is picked at random, as the sum of the weights it has. -/
def VerbTable.weightOf (t : VerbTable) (name : String) : Nat :=
  ((t.weights.filter fun entry => entry.1 == name).map fun entry => entry.2.toNat).sum

namespace Profile

open Declarations

/-- What an entry declares. -/
def Entry.declared (defaults : Defaults) (entry : Entry) : List Declaration :=
  .verb (entry.toVerb defaults) ::
    (entry.synonyms.map (.synonym · entry.name) ++ (entry.weight.map (.weight entry.name)).toList)

/-- What a document declares. -/
def Document.declared (doc : Document) : List Declaration :=
  doc.entries.flatMap (Entry.declared doc.defaults)

theorem Entry.declare_eq (defaults : Defaults) (d : Declarations) (entry : Entry) :
    Entry.declare defaults d entry = (entry.declared defaults).foldl Declarations.declare d := by
  rw [declared, List.foldl_cons, List.foldl_append, List.foldl_map, Entry.declare]
  cases entry.weight with
  | none => rfl
  | some weight => rfl

theorem Document.declarations_eq (doc : Document) :
    doc.declarations = ofList doc.profile doc.declared := by
  have hentries : Entry.declare doc.defaults =
      fun d entry => (entry.declared doc.defaults).foldl Declarations.declare d := by
    funext d entry
    exact entry.declare_eq doc.defaults d
  rw [declarations, hentries, ofList, declared, List.foldl_flatMap]

/-- The name of an entry is that of its verb. -/
theorem Document.lower_mem_verbNames {doc : Document} {entry : Entry} (h : entry ∈ doc.entries) :
    Text.lower entry.name ∈ verbNames doc.declared := by
  have hverb : .verb (entry.toVerb doc.defaults) ∈ doc.declared :=
    List.mem_flatMap.mpr ⟨entry, h, List.mem_cons_self ..⟩
  refine List.mem_map.mpr ⟨_, mem_verbs_iff.mpr hverb, ?_⟩
  exact Text.lower_lower entry.name

theorem Document.direct_declared (doc : Document) : Direct doc.declared := by
  constructor
  · intro word target hmem
    obtain ⟨entry, hentry, hmem⟩ := List.mem_flatMap.mp hmem
    obtain ⟨-, rfl⟩ : word ∈ entry.synonyms ∧ entry.name = target := by
      simpa [Entry.declared] using hmem
    exact lower_mem_verbNames hentry
  · intro word share hmem
    obtain ⟨entry, hentry, hmem⟩ := List.mem_flatMap.mp hmem
    obtain ⟨-, rfl⟩ : entry.weight = some share ∧ entry.name = word := by
      simpa [Entry.declared] using hmem
    exact lower_mem_verbNames hentry

/-- Whether two entries are the same but for the order of their synonyms. -/
structure Entry.Rearranges (entry entry' : Entry) : Prop where
  synonyms : entry.synonyms.Perm entry'.synonyms
  rest : { entry with synonyms := entry'.synonyms } = entry'

/-- Whether two documents are the same but for the order of their entries and of the synonyms in them. -/
structure Document.Rearranges (doc doc' : Document) : Prop where
  profile : doc.profile = doc'.profile
  defaults : doc.defaults = doc'.defaults
  entries : ∃ entries, doc.entries.Perm entries ∧
    List.Forall₂ Entry.Rearranges entries doc'.entries

theorem Entry.Rearranges.declared {entry entry' : Entry} (h : entry.Rearranges entry')
    (defaults : Defaults) : (entry.declared defaults).Perm (entry'.declared defaults) := by
  obtain ⟨hsynonyms, hrest⟩ := h
  rw [← hrest]
  exact ((hsynonyms.map (Declaration.synonym · entry.name)).append_right _).cons _

theorem perm_flatMap_declared {entries entries' : List Entry}
    (h : List.Forall₂ Entry.Rearranges entries entries') (defaults : Defaults) :
    (entries.flatMap (Entry.declared defaults)).Perm (entries'.flatMap (Entry.declared defaults)) := by
  induction h with
  | nil => exact .nil
  | cons hentry _ ih => exact (hentry.declared defaults).append ih

theorem Document.Rearranges.declared {doc doc' : Document} (h : doc.Rearranges doc') :
    doc.declared.Perm doc'.declared := by
  obtain ⟨entries, hperm, hentries⟩ := h.entries
  calc doc.declared
      = doc.entries.flatMap (Entry.declared doc.defaults) := rfl
    List.Perm _ (entries.flatMap (Entry.declared doc.defaults)) := hperm.flatMap_right _
    List.Perm _ (doc'.entries.flatMap (Entry.declared doc.defaults)) :=
      perm_flatMap_declared hentries doc.defaults
    _ = doc'.declared := by rw [h.defaults, Document.declared]

/-- **The order of a document.** However the entries of a document and the synonyms of each entry are
rearranged, it makes a table in both orders or in none; every word names the same verb in both tables, and
every verb is picked as often. -/
theorem Document.toTable_rearranged {doc doc' : Document} (h : doc.Rearranges doc') :
    ((∃ t, doc.toTable = .ok t) ↔ ∃ t, doc'.toTable = .ok t) ∧
    ∀ t t', doc.toTable = .ok t → doc'.toTable = .ok t' →
      (∀ word, t.resolve? word = t'.resolve? word) ∧ ∀ name, t.weightOf name = t'.weightOf name := by
  have hperm := h.declared
  simp only [toTable, declarations_eq]
  refine ⟨⟨?_, ?_⟩, fun t t' ht ht' => ⟨resolve?_eq_of_perm hperm ht ht', fun name => ?_⟩⟩
  · rintro ⟨t, ht⟩
    exact ((consistent_of_build ht).of_perm doc.direct_declared hperm).exists_build doc'.profile
  · rintro ⟨t', ht'⟩
    exact ((consistent_of_build ht').of_perm doc'.direct_declared hperm.symm).exists_build doc.profile
  · rw [VerbTable.weightOf, VerbTable.weightOf, weights_of_build doc.direct_declared ht,
      weights_of_build doc'.direct_declared ht']
    exact (((hperm.filterMap Declaration.weight?).filter _).map _).sum_eq

/-- A jump with three other names, one of which is its own, and a run. -/
def jumpAndRun : Document :=
  { profile := "sample", entries := [
      { name := "Jump", key := "a", synonyms := ["j", "JUMP", "hop"], weight := some 2 },
      { name := "run", key := "d", kind := .toggle, synonyms := ["go"], weight := some 1 }] }

/-- The same with the entries and the names of the jump in another order. -/
def runAndJump : Document :=
  { profile := "sample", entries := [
      { name := "run", key := "d", kind := .toggle, synonyms := ["go"], weight := some 1 },
      { name := "Jump", key := "a", synonyms := ["hop", "j", "JUMP"], weight := some 2 }] }

theorem toTable_rearranged_jumpAndRun : jumpAndRun.Rearranges runAndJump ∧
    ∃ t t', jumpAndRun.toTable = .ok t ∧ runAndJump.toTable = .ok t' ∧
      (∀ word, t.resolve? word = t'.resolve? word) ∧ ∀ name, t.weightOf name = t'.weightOf name := by
  have hrearranges : jumpAndRun.Rearranges runAndJump := by
    refine ⟨rfl, rfl, _, .swap _ _ _, .cons ⟨.refl _, rfl⟩ (.cons ⟨?_, rfl⟩ .nil)⟩
    show (["j", "JUMP"] ++ ["hop"]).Perm (["hop"] ++ ["j", "JUMP"])
    exact List.perm_append_comm
  have htable : jumpAndRun.toTable = .ok {
      profile := "sample"
      verbs := [{ name := "jump", key := "a", defaultMs := 50, minMs := 1 },
        { name := "run", key := "d", defaultMs := 0, minMs := 1, kind := .toggle }]
      synonyms := [("j", "jump"), ("hop", "jump"), ("go", "run")]
      weights := [("jump", 2), ("run", 1)] } := by
    decide +kernel
  obtain ⟨hiff, halike⟩ := Document.toTable_rearranged hrearranges
  obtain ⟨t', ht'⟩ := hiff.mp ⟨_, htable⟩
  exact ⟨hrearranges, _, t', htable, ht', halike _ t' htable ht'⟩

end Profile

end CrowdPad
