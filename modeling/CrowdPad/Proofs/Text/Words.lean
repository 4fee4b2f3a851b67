import CrowdPad.Text.Words
import Mathlib.Data.List.TakeWhile

/-! Words in a text. What stands between stretches of white space comes out as it was put in, however
much white space there is. -/

namespace CrowdPad.Text

/-- What can stand as a word of a text: it is not empty and holds no white space. -/
structure IsWord (word : List Char) : Prop where
  ne_nil : word ≠ []
  solid : ∀ c ∈ word, isBlank c = false

instance (word : List Char) : Decidable (IsWord word) :=
  decidable_of_iff (word ≠ [] ∧ word.all (!isBlank ·))
    ⟨fun h => ⟨h.1, by simpa using h.2⟩, fun h => ⟨h.ne_nil, by simpa using h.solid⟩⟩

theorem isBlank_of_isDigit {c : Char} (h : isDigit c) : isBlank c = false := by
  simp only [isDigit, Bool.and_eq_true, decide_eq_true_eq, Char.le_def, UInt32.le_iff_toNat_le] at h
  have hlow : 48 ≤ c.toNat := h.1
  have hhigh : c.toNat ≤ 57 := h.2
  simp only [isBlank, Bool.or_eq_false_iff, Bool.and_eq_false_iff, decide_eq_false_iff_not,
    beq_eq_false_iff_ne]
  omega

theorem IsWord.append {word more : List Char} (hword : IsWord word)
    (hmore : ∀ c ∈ more, isBlank c = false) : IsWord (word ++ more) := by
  constructor
  · exact List.append_ne_nil_of_left_ne_nil hword.ne_nil more
  · intro c hc
    rcases List.mem_append.mp hc with hc | hc
    · exact hword.solid c hc
    · exact hmore c hc

/-- A text in which words stand in order, with white space between them and maybe around them. -/
inductive Spaced : List (List Char) → List Char → Prop where
  | nil : Spaced [] []
  | blank {c : Char} {words : List (List Char)} {cs : List Char} (hc : isBlank c)
      (h : Spaced words cs) : Spaced words (c :: cs)
  | word {word : List Char} {words : List (List Char)} {cs : List Char}
      (hgap : ∀ c ∈ cs.head?, isBlank c) (h : Spaced words cs) : Spaced (word :: words) (word ++ cs)

theorem wordsFrom_append (before : List Char) {word cs : List Char} (hne : before.reverse ++ word ≠ [])
    (hsolid : ∀ c ∈ word, isBlank c = false) (hgap : ∀ c ∈ cs.head?, isBlank c) :
    wordsFrom before (word ++ cs) = (before.reverse ++ word) :: wordsFrom [] cs := by
  induction word generalizing before with
  | nil =>
      have hbefore : before.isEmpty = false := by simpa using hne
      cases cs with
      | nil => simp [wordsFrom, hbefore]
      | cons c rest =>
          have hc : isBlank c := hgap c rfl
          simp [wordsFrom, hc, hbefore]
  | cons c word ih =>
      have hc : ¬isBlank c := by simp [hsolid c (List.mem_cons_self ..)]
      have hmore := ih (c :: before) (by simp) fun d hd => hsolid d (List.mem_cons_of_mem _ hd)
      rw [List.cons_append, wordsFrom, if_neg hc, hmore, List.reverse_cons, List.append_assoc,
        List.singleton_append]

theorem words_of_spaced {words : List (List Char)} {cs : List Char} (h : Spaced words cs)
    (hwords : ∀ word ∈ words, IsWord word) : wordsFrom [] cs = words := by
  induction h with
  | nil => rfl
  | blank hc _ ih =>
      rw [wordsFrom, if_pos hc, if_pos List.isEmpty_nil]
      exact ih hwords
  | word hgap _ ih =>
      have hfirst := hwords _ (List.mem_cons_self ..)
      have hrest := ih fun other hother => hwords other (List.mem_cons_of_mem _ hother)
      rw [wordsFrom_append [] hfirst.ne_nil hfirst.solid hgap, hrest]
      rfl

/-! ### Texts of few words -/

theorem wordsFrom_dropWhile (cs : List Char) :
    wordsFrom [] (cs.dropWhile isBlank) = wordsFrom [] cs := by
  induction cs with
  | nil => rfl
  | cons c rest ih =>
      by_cases hc : isBlank c
      · rw [List.dropWhile_cons_of_pos hc, ih, wordsFrom, if_pos hc, if_pos List.isEmpty_nil]
      · rw [List.dropWhile_cons_of_neg hc]

/-- A text is what is left of a word, and then nothing or white space. -/
theorem exists_front (cs : List Char) : ∃ front behind, cs = front ++ behind ∧
    (∀ c ∈ front, isBlank c = false) ∧ ∀ c ∈ behind.head?, isBlank c := by
  induction cs with
  | nil => exact ⟨[], [], rfl, nofun, nofun⟩
  | cons c rest ih =>
      by_cases hc : isBlank c
      · exact ⟨[], c :: rest, rfl, nofun, fun d hd => Option.some.inj hd ▸ hc⟩
      · obtain ⟨front, behind, rfl, hfront, hbehind⟩ := ih
        refine ⟨c :: front, behind, rfl, ?_, hbehind⟩
        exact List.forall_mem_cons.mpr ⟨Bool.eq_false_iff.mpr hc, hfront⟩

/-- The first word of a text goes on until there is white space. -/
theorem wordsFrom_front {word : List Char} (hword : IsWord word) (cs : List Char) :
    ∃ front behind, cs = front ++ behind ∧ (∀ c ∈ front, isBlank c = false) ∧
      wordsFrom [] (word ++ cs) = (word ++ front) :: wordsFrom [] behind := by
  obtain ⟨front, behind, rfl, hfront, hbehind⟩ := exists_front cs
  have hlonger := hword.append hfront
  refine ⟨front, behind, rfl, hfront, ?_⟩
  rw [← List.append_assoc]
  exact wordsFrom_append [] hlonger.ne_nil hlonger.solid hbehind

theorem wordsFrom_eq_nil {cs : List Char} (h : wordsFrom [] cs = []) : ∀ c ∈ cs, isBlank c := by
  induction cs with
  | nil => exact nofun
  | cons c rest ih =>
      by_cases hc : isBlank c
      · rw [wordsFrom, if_pos hc, if_pos List.isEmpty_nil] at h
        exact List.forall_mem_cons.mpr ⟨hc, ih h⟩
      · have hword : IsWord [c] := ⟨List.cons_ne_nil c [], by simpa using hc⟩
        obtain ⟨front, behind, rfl, -, hwords⟩ := wordsFrom_front hword rest
        rw [List.singleton_append] at hwords
        rw [hwords] at h
        cases h

theorem trim_of_no_words {cs : List Char} (h : wordsFrom [] cs = []) : trim cs = [] := by
  rw [trim, List.dropWhile_eq_nil_iff.mpr (wordsFrom_eq_nil h)]
  rfl

theorem IsWord.trimEnd_append {word blanks : List Char} (hword : IsWord word)
    (hblanks : ∀ c ∈ blanks, isBlank c) : trimEnd (word ++ blanks) = word := by
  have hlast : ∀ hl : 0 < word.reverse.length, ¬isBlank word.reverse[0] = true := fun hl =>
    Bool.eq_false_iff.mp (hword.solid _ (List.mem_reverse.mp (List.getElem_mem hl)))
  rw [trimEnd, List.reverse_append, List.dropWhile_append_of_pos
    fun c hc => hblanks c (List.mem_reverse.mp hc), List.dropWhile_eq_self_iff.mpr hlast,
    List.reverse_reverse]

/-- The only word of a text is the text without the white space around it. -/
theorem trim_of_one_word {cs word : List Char} (h : wordsFrom [] cs = [word]) : trim cs = word := by
  rw [← wordsFrom_dropWhile] at h
  rw [trim]
  have hstart := List.head?_dropWhile_not (p := isBlank) (l := cs)
  cases hrest : cs.dropWhile isBlank with
  | nil =>
      rw [hrest] at h
      cases h
  | cons c rest =>
      rw [hrest] at h hstart
      have hfirst : IsWord [c] := ⟨List.cons_ne_nil c [], by simpa using hstart⟩
      obtain ⟨front, behind, rfl, hfront, hwords⟩ := wordsFrom_front hfirst rest
      rw [List.singleton_append] at hwords
      obtain ⟨hword, hnone⟩ := List.cons_eq_cons.mp (hwords.symm.trans h)
      have hsolid := hfirst.append hfront
      rw [hword] at hsolid
      rw [← List.cons_append, ← List.singleton_append, hword]
      exact hsolid.trimEnd_append (wordsFrom_eq_nil hnone)

end CrowdPad.Text
