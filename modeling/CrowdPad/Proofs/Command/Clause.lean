import CrowdPad.Command.Timing

/-! Timing clauses as they are written. In an accepted grammar no separator holds a digit or white
space, so that a written clause is parted where it was put together, and a clause written as one word
takes in nothing of a word behind it that cannot stand in a clause. -/

namespace CrowdPad

/-- A timing clause: nothing, a duration, a delay with a separator, or both around a separator. -/
inductive Clause where
  | absent
  | duration (n : Word)
  | delay (d separator : Word)
  | both (d separator n : Word)
deriving Repr, DecidableEq

/-- A number of milliseconds as it is written. -/
structure Word.IsMillis (n : Word) : Prop where
  digits : Text.isDigits n
  small : Text.digitsValue n < 4294967296

namespace Clause

/-- The word of a clause, if it has one. -/
def words : Clause → List Word
  | absent => []
  | duration n => [n]
  | delay d separator => [d ++ separator]
  | both d separator n => [d ++ separator ++ n]

/-- The timing that a clause stands for. -/
def timing : Clause → Timing
  | absent => {}
  | duration n => { duration := some (Text.digitsValue n) }
  | delay d _ => { delay := Text.digitsValue d }
  | both d _ n => { delay := Text.digitsValue d, duration := some (Text.digitsValue n) }

theorem words_cases (clause : Clause) : clause = .absent ∨ ∃ word, clause.words = [word] := by
  cases clause <;> simp [words]

/-- Whether a clause can be written: its numbers fit in 32 bits and its separator is one. -/
def IsWritten (g : Grammar) : Clause → Prop
  | absent => True
  | duration n => n.IsMillis
  | delay d separator => d.IsMillis ∧ separator ∈ g.separatorWords
  | both d separator n => d.IsMillis ∧ separator ∈ g.separatorWords ∧ n.IsMillis

end Clause

/-! ### Accepted grammars -/

/-- Whether a text could be taken neither for a number nor for two words. -/
structure Word.IsUsable (text : Word) : Prop where
  ne_nil : text ≠ []
  plain : ∀ c ∈ text, Text.isBlank c = false ∧ Text.isDigit c = false

/-- What the settings of an accepted grammar are like. -/
structure Grammar.Accepted (g : Grammar) : Prop where
  marker : Word.IsUsable g.marker.toList
  separators : ∀ s ∈ g.separatorWords, Word.IsUsable s

theorem Grammar.usable_of_not_isUnusable {text : String} (h : Grammar.isUnusable text = false) :
    Word.IsUsable text.toList := by
  rw [isUnusable, Bool.or_eq_false_iff, List.any_eq_false] at h
  constructor
  · intro hnil
    rw [String.isEmpty_eq_false_iff] at h
    exact h.1 (String.toList_eq_nil_iff.mp hnil)
  · intro c hc
    simpa using h.2 c hc

theorem Grammar.accepted_of_fault?_eq_none {g : Grammar} (h : g.fault? = none) : g.Accepted := by
  unfold fault? at h
  split at h
  · cases h
  · rename_i hmarker
    split at h
    · cases h
    · rw [Option.map_eq_none_iff, List.find?_eq_none] at h
      constructor
      · exact usable_of_not_isUnusable (Bool.eq_false_iff.mpr hmarker)
      · intro s hs
        obtain ⟨separator, hmem, rfl⟩ := List.mem_map.mp hs
        refine usable_of_not_isUnusable ?_
        have := h separator hmem
        simp only [Bool.or_eq_true, not_or] at this
        exact Bool.eq_false_iff.mpr this.1

theorem Grammar.separator_ne_minus {g : Grammar} (h : g.fault? = none) {separator : Word}
    (hseparator : separator ∈ g.separatorWords) : separator ≠ ['-'] := by
  rintro rfl
  obtain ⟨text, hmem, htext⟩ := List.mem_map.mp hseparator
  obtain rfl : text = "-" := String.toList_inj.mp htext
  unfold fault? at h
  split at h
  · cases h
  · split at h
    · cases h
    · rw [Option.map_eq_none_iff, List.find?_eq_none] at h
      exact h "-" hmem rfl

/-! ### Numbers -/

namespace Word

theorem isDigits_iff {n : Word} : Text.isDigits n ↔ n ≠ [] ∧ ∀ c ∈ n, Text.isDigit c := by
  simp [Text.isDigits]

theorem IsUsable.not_prefix_of_digits {s n : Word} (hs : s.IsUsable)
    (hn : ∀ c ∈ n, Text.isDigit c) (hne : n ≠ []) (rest : Word) :
    s.isPrefixOf (n ++ rest) = false := by
  obtain ⟨c, s', rfl⟩ := List.exists_cons_of_ne_nil hs.ne_nil
  obtain ⟨d, n', rfl⟩ := List.exists_cons_of_ne_nil hne
  have hc := (hs.plain c (List.mem_cons_self ..)).2
  have hd := hn d (List.mem_cons_self ..)
  have hdiff : c ≠ d := by
    rintro rfl
    rw [hd] at hc
    cases hc
  simp [List.isPrefixOf, hdiff]

/-- No number holds a separator. -/
theorem IsUsable.not_isDigits {s : Word} (hs : s.IsUsable) (before behind : Word) :
    Text.isDigits (before ++ s ++ behind) = false := by
  obtain ⟨c, tail, rfl⟩ := List.exists_cons_of_ne_nil hs.ne_nil
  have hplain := (hs.plain c (List.mem_cons_self ..)).2
  simp [Text.isDigits, hplain]

theorem IsMillis.ne_nil {n : Word} (h : n.IsMillis) : n ≠ [] := (isDigits_iff.mp h.digits).1

theorem IsMillis.all {n : Word} (h : n.IsMillis) : ∀ c ∈ n, Text.isDigit c :=
  (isDigits_iff.mp h.digits).2

theorem IsMillis.millis {n : Word} (h : n.IsMillis) : n.millis = .ok (Text.digitsValue n) := by
  have hsign : n.head? ≠ some '-' := by
    intro hhead
    have := h.all '-' (List.mem_of_head? hhead)
    exact absurd this (by decide)
  have hsmall : Text.digitsValue n < UInt32.size := h.small
  rw [Word.millis, if_neg hsign, h.digits, if_neg (by decide)]
  simp only [hsmall, if_true]

theorem startsLikeTiming_append {n : Word} (hne : n ≠ []) (hn : ∀ c ∈ n, Text.isDigit c)
    (rest : Word) : (n ++ rest).startsLikeTiming := by
  obtain ⟨c, n, rfl⟩ := List.exists_cons_of_ne_nil hne
  have hc := hn c (List.mem_cons_self ..)
  rw [List.cons_append]
  generalize n ++ rest = tail
  unfold startsLikeTiming
  split
  · rename_i heq
    cases heq
    exact absurd hc (by decide)
  · rename_i heq
    cases heq
    exact hc
  · rename_i heq
    cases heq

theorem startsLikeTiming_of_isDigits {n : Word} (h : Text.isDigits n) : n.startsLikeTiming := by
  obtain ⟨hne, hall⟩ := isDigits_iff.mp h
  have htiming := startsLikeTiming_append hne hall []
  rwa [List.append_nil] at htiming

theorem startsLikeTiming_of_ne {c : Char} (hc : c ≠ '-') (rest : Word) :
    startsLikeTiming (c :: rest) = Text.isDigit c := by
  unfold startsLikeTiming
  split
  · rename_i heq
    exact absurd (List.cons.inj heq).1 hc
  · rename_i heq
    rw [(List.cons.inj heq).1]
  · rename_i heq
    cases heq

theorem startsLikeTiming_minus (rest : Word) :
    startsLikeTiming ('-' :: rest) = rest.head?.any Text.isDigit := by
  cases rest <;> rfl

/-- Of the texts that could not be taken for a number only the minus sign makes a word look like timing,
and only before a digit. -/
theorem IsUsable.startsLikeTiming_append {s : Word} (hs : s.IsUsable) (rest : Word) :
    (s ++ rest).startsLikeTiming = (decide (s = ['-']) && rest.head?.any Text.isDigit) := by
  obtain ⟨c, tail, rfl⟩ := List.exists_cons_of_ne_nil hs.ne_nil
  have hc := (hs.plain c (List.mem_cons_self ..)).2
  by_cases hminus : c = '-'
  · subst hminus
    rw [List.cons_append, startsLikeTiming_minus]
    cases tail with
    | nil => rfl
    | cons d tail =>
        have hd := (hs.plain d (by simp)).2
        simp [hd]
  · rw [List.cons_append, startsLikeTiming_of_ne hminus, hc]
    simp [hminus]

/-! ### Separators -/

/-- The longer one of a separator found so far and one that the text may begin with too. -/
def keepLonger (cs : Word) (best : Option Word) (s : Word) : Option Word :=
  if s.isPrefixOf cs && (best.getD []).length ≤ s.length then some s else best

theorem leadingSeparator?_eq_foldl (separators : List Word) (cs : Word) :
    leadingSeparator? separators cs = separators.foldl (keepLonger cs) none := rfl

theorem leadingSeparator?_eq_none {separators : List Word} {cs : Word}
    (h : ∀ s ∈ separators, s.isPrefixOf cs = false) : leadingSeparator? separators cs = none := by
  refine List.foldlRecOn separators _ (motive := fun best => best = none) rfl ?_
  rintro best rfl s hs
  simp [h s hs]

/-- The longest separator that a text begins with is found wherever it stands in the list. -/
theorem leadingSeparator?_eq_some {separators : List Word} {separator cs : Word}
    (hmem : separator ∈ separators) (hlead : separator <+: cs)
    (hlongest : ∀ s ∈ separators, s <+: cs → s.length ≤ separator.length) :
    leadingSeparator? separators cs = some separator := by
  obtain ⟨front, back, rfl⟩ := List.append_of_mem hmem
  rw [leadingSeparator?_eq_foldl, List.foldl_append, List.foldl_cons]
  have hfront : ((front.foldl (keepLonger cs) none).getD []).length ≤ separator.length := by
    refine List.foldlRecOn front _
      (motive := fun best : Option Word => (best.getD []).length ≤ separator.length)
      (Nat.zero_le _) ?_
    intro best hbest s hs
    unfold keepLonger
    split
    · rename_i hs'
      rw [Bool.and_eq_true, List.isPrefixOf_iff_prefix] at hs'
      exact hlongest s (List.mem_append_left _ hs) hs'.1
    · exact hbest
  have hfound : keepLonger cs (front.foldl (keepLonger cs) none) separator = some separator := by
    rw [keepLonger, if_pos]
    rw [Bool.and_eq_true, List.isPrefixOf_iff_prefix, decide_eq_true_iff]
    exact ⟨hlead, hfront⟩
  rw [hfound]
  refine List.foldlRecOn back _ (motive := fun best => best = some separator) rfl ?_
  rintro best rfl s hs
  unfold keepLonger
  split
  · rename_i hs'
    rw [Bool.and_eq_true, List.isPrefixOf_iff_prefix, decide_eq_true_iff] at hs'
    have hle := hlongest s (List.mem_append_right _ (List.mem_cons_of_mem _ hs)) hs'.1
    have hsub : s <+: separator := List.prefix_of_prefix_length_le hs'.1 hlead hle
    rw [hsub.eq_of_length (Nat.le_antisymm hle hs'.2)]
  · rfl

theorem splitSeparator?_digits {separators : List Word} (hs : ∀ s ∈ separators, s.IsUsable)
    {n : Word} (hn : ∀ c ∈ n, Text.isDigit c) : splitSeparator? separators n = none := by
  induction n with
  | nil => rfl
  | cons c n ih =>
      have hnone : leadingSeparator? separators (c :: n) = none := by
        refine leadingSeparator?_eq_none fun s hmem => ?_
        have hstart := (hs s hmem).not_prefix_of_digits hn (List.cons_ne_nil c n) []
        rwa [List.append_nil] at hstart
      rw [splitSeparator?, hnone, ih fun d hd => hn d (List.mem_cons_of_mem _ hd)]
      rfl

/-- A separator that begins a text before digits is the longest one there: a longer one would hold a
digit. -/
theorem leadingSeparator?_append {separators : List Word} (hs : ∀ s ∈ separators, s.IsUsable)
    {separator n : Word} (hmem : separator ∈ separators) (hn : ∀ c ∈ n, Text.isDigit c) :
    leadingSeparator? separators (separator ++ n) = some separator := by
  refine leadingSeparator?_eq_some hmem (List.prefix_append ..) fun s hsmem hlead => ?_
  rcases List.prefix_or_prefix_of_prefix hlead (List.prefix_append separator n) with hle | hge
  · exact hle.length_le
  · obtain ⟨more, rfl⟩ := hge
    rw [List.prefix_append_right_inj] at hlead
    cases more with
    | nil => simp
    | cons c more =>
        have hdigit := hn c (hlead.subset (List.mem_cons_self ..))
        have hplain := ((hs _ hsmem).plain c (by simp)).2
        rw [hdigit] at hplain
        cases hplain

theorem splitSeparator?_append {separators : List Word} (hs : ∀ s ∈ separators, s.IsUsable)
    {d separator n : Word} (hmem : separator ∈ separators) (hd : ∀ c ∈ d, Text.isDigit c)
    (hn : ∀ c ∈ n, Text.isDigit c) :
    splitSeparator? separators (d ++ (separator ++ n)) = some (d, n) := by
  induction d with
  | nil =>
      obtain ⟨c, rest, rfl⟩ := List.exists_cons_of_ne_nil (hs separator hmem).ne_nil
      have hlead := leadingSeparator?_append hs hmem hn
      rw [List.nil_append, List.cons_append, splitSeparator?, ← List.cons_append, hlead]
      simp only [List.drop_left]
  | cons c d ih =>
      have hnone : leadingSeparator? separators (c :: d ++ (separator ++ n)) = none :=
        leadingSeparator?_eq_none fun s hmem =>
          (hs s hmem).not_prefix_of_digits hd (List.cons_ne_nil c d) _
      rw [List.cons_append] at hnone
      rw [List.cons_append, splitSeparator?, hnone, ih fun e he => hd e (List.mem_cons_of_mem _ he)]
      rfl

end Word

/-! ### Reading a clause -/

namespace Grammar

variable {g : Grammar} {clause : Clause} {d separator n : Word}

/-- A delay without a duration, however many digits it has. -/
theorem Accepted.parseTiming_delay (h : g.Accepted) (hseparator : separator ∈ g.separatorWords)
    (hd : Text.isDigits d) :
    g.parseTiming (d ++ separator) = do return { delay := ← d.millis } := by
  obtain ⟨hne, hall⟩ := Word.isDigits_iff.mp hd
  have hsplit := Word.splitSeparator?_append h.separators hseparator hall (n := [])
    fun _ hc => absurd hc List.not_mem_nil
  rw [List.append_nil] at hsplit
  rw [Grammar.parseTiming, hsplit]
  simp only [List.isEmpty_eq_false_iff.mpr hne]
  rfl

/-- Two numbers around a separator, however many digits they have. -/
theorem Accepted.parseTiming_both (h : g.Accepted) (hseparator : separator ∈ g.separatorWords)
    (hd : Text.isDigits d) (hn : Text.isDigits n) :
    g.parseTiming (d ++ separator ++ n) =
      do return { delay := ← d.millis, duration := some (← n.millis) } := by
  obtain ⟨hdne, hdall⟩ := Word.isDigits_iff.mp hd
  obtain ⟨hnne, hnall⟩ := Word.isDigits_iff.mp hn
  have hsplit := Word.splitSeparator?_append h.separators hseparator hdall hnall
  have hnone : (g.separatorWords.any fun s => s.isPrefixOf n) = false := by
    rw [List.any_eq_false]
    intro s hs
    have hstart := (h.separators s hs).not_prefix_of_digits hnall hnne []
    rw [List.append_nil] at hstart
    simp [hstart]
  rw [Grammar.parseTiming, List.append_assoc, hsplit]
  simp only [List.isEmpty_eq_false_iff.mpr hdne, List.isEmpty_eq_false_iff.mpr hnne, hnone]
  rfl

/-- A clause that is written as one word is read as the timing that it stands for. -/
theorem Accepted.parseTiming (h : g.Accepted) (hclause : clause.IsWritten g) {word : Word}
    (hword : clause.words = [word]) : g.parseTiming word = .ok clause.timing := by
  cases clause with
  | absent => cases hword
  | duration n =>
      cases hword
      rw [Grammar.parseTiming, Word.splitSeparator?_digits h.separators hclause.all]
      simp only [Word.IsMillis.millis hclause]
      rfl
  | delay d separator =>
      cases hword
      obtain ⟨hd, hseparator⟩ := hclause
      rw [h.parseTiming_delay hseparator hd.digits, hd.millis]
      rfl
  | both d separator n =>
      cases hword
      obtain ⟨hd, hseparator, hn⟩ := hclause
      rw [h.parseTiming_both hseparator hd.digits hn.digits, hd.millis, hn.millis]
      rfl

/-- Whether a word can stand in no clause. -/
structure IsOutside (g : Grammar) (word : Word) : Prop where
  timing : word.startsLikeTiming = false
  separator : g.isSeparator word = false
  separated : g.isSeparatedDigits word = false

theorem clause?_of_outside {rest : List Word} (hrest : ∀ word ∈ rest.head?, g.IsOutside word) :
    g.clause? rest = none := by
  cases rest with
  | nil => rfl
  | cons word rest => simp [clause?, (hrest word rfl).timing]

theorem IsOutside.isDigits {word : Word} (h : g.IsOutside word) : Text.isDigits word = false := by
  cases hdigits : Text.isDigits word with
  | false => rfl
  | true =>
      have htiming := Word.startsLikeTiming_of_isDigits hdigits
      rw [h.timing] at htiming
      cases htiming

/-- No separator ends a word that a digit ends. -/
theorem Accepted.endsInSeparator_append (h : g.Accepted) (before : Word)
    (hn : Text.isDigits n) : g.endsInSeparator (before ++ n) = false := by
  obtain ⟨hne, hall⟩ := Word.isDigits_iff.mp hn
  rw [endsInSeparator, List.any_eq_false]
  intro s hs hends
  rw [Bool.and_eq_true, List.isSuffixOf_iff_suffix] at hends
  have husable := h.separators s hs
  have hlast := hends.2.getLast husable.ne_nil
  rw [List.getLast_append_of_ne_nil _ hne] at hlast
  have hplain := (husable.plain _ (List.getLast_mem husable.ne_nil)).2
  rw [hlast, hall _ (List.getLast_mem hne)] at hplain
  cases hplain

theorem endsInSeparator_separator (hd : d ≠ [])
    (hmem : separator ∈ g.separatorWords) : g.endsInSeparator (d ++ separator) := by
  rw [endsInSeparator, List.any_eq_true]
  refine ⟨separator, hmem, ?_⟩
  have hlength := List.length_pos_iff.mpr hd
  simp [hlength]

/-- A clause that is written as one word ends there. -/
theorem Accepted.clause?_word (h : g.Accepted) (hclause : clause.IsWritten g) {word : Word}
    (hword : clause.words = [word]) {rest : List Word}
    (hrest : ∀ word ∈ rest.head?, g.IsOutside word) :
    g.clause? (word :: rest) = some (word, rest) := by
  cases clause with
  | absent => cases hword
  | duration n =>
      cases hword
      have htiming := Word.startsLikeTiming_of_isDigits hclause.digits
      have hends := h.endsInSeparator_append [] hclause.digits
      rw [List.nil_append] at hends
      cases rest with
      | nil => simp [clause?, htiming, hends, hclause.digits]
      | cons next rest =>
          have hnext := hrest next rfl
          simp [clause?, htiming, hends, hclause.digits, hnext.separator, hnext.separated]
  | delay d separator =>
      cases hword
      obtain ⟨hd, hseparator⟩ := hclause
      have htiming := Word.startsLikeTiming_append hd.ne_nil hd.all separator
      have hends := endsInSeparator_separator hd.ne_nil hseparator
      cases rest with
      | nil => simp [clause?, htiming, hends]
      | cons next rest => simp [clause?, htiming, hends, (hrest next rfl).isDigits]
  | both d separator n =>
      cases hword
      obtain ⟨hd, hseparator, hn⟩ := hclause
      have htiming := Word.startsLikeTiming_append hd.ne_nil hd.all (separator ++ n)
      have hends := h.endsInSeparator_append (d ++ separator) hn.digits
      have hdigits := (h.separators _ hseparator).not_isDigits d n
      rw [← List.append_assoc] at htiming
      generalize d ++ separator ++ n = word at htiming hends hdigits
      simp [clause?, htiming, hends, hdigits]

end Grammar

end CrowdPad
