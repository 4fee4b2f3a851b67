import CrowdPad.Proofs.Command.Course

/-! Spacing and separators. A clause with a separator may be written as one word or as up to three, with
any separator of the grammar. The message is the same, but for the text of the clause in the error that
numbers beyond 32 bits lead to. -/

namespace CrowdPad

variable {α : Type}

/-! ### Ways to write a clause -/

namespace Clause

/-- The ways to space out a clause. -/
def spacings : Clause → List (List Word)
  | absent => [[]]
  | duration n => [[n]]
  | delay d separator => [[d ++ separator], [d, separator]]
  | both d separator n =>
    [[d ++ separator ++ n], [d ++ separator, n], [d, separator ++ n], [d, separator, n]]

def withSeparator (separator : Word) : Clause → Clause
  | absent => absent
  | duration n => duration n
  | delay d _ => delay d separator
  | both d _ n => both d separator n

/-- The text of a clause without white space in it. -/
def text (clause : Clause) : Word := clause.words.flatten

/-- Whether a clause has a separator behind or between numbers of any size, and the word behind it is
not taken for the duration that it lacks. -/
def IsParted (g : Grammar) (next : Option Word) : Clause → Prop
  | absent => False
  | duration _ => False
  | delay d separator =>
    Text.isDigits d ∧ separator ∈ g.separatorWords ∧ ∀ word ∈ next, Text.isDigits word = false
  | both d separator n => Text.isDigits d ∧ separator ∈ g.separatorWords ∧ Text.isDigits n

theorem IsParted.withSeparator {g : Grammar} {next : Option Word} {clause : Clause}
    (h : clause.IsParted g next) {separator : Word} (hseparator : separator ∈ g.separatorWords) :
    (clause.withSeparator separator).IsParted g next := by
  cases clause with
  | absent => exact h
  | duration n => exact h
  | delay d _ => exact ⟨h.1, hseparator, h.2.2⟩
  | both d _ n => exact ⟨h.1, hseparator, h.2.2⟩

end Clause

/-! ### Texts of clauses in errors -/

namespace Message

/-- The message with another text for the clause of one command, if that clause is malformed. -/
def reclause (number : Nat) (clause : String) (m : Message α) : Message α :=
  { m with malformed := m.malformed.map fun e => if e.index = number then { e with clause } else e }

theorem reclause_append (number : Nat) (clause : String) (m n : Message α) :
    (m ++ n).reclause number clause = m.reclause number clause ++ n.reclause number clause := by
  show Message.mk _ _ _ = Message.mk _ _ _
  simp [reclause]

theorem reclause_eq_self {number : Nat} {m : Message α} (h : ∀ e ∈ m.malformed, e.index ≠ number)
    (clause : String) : m.reclause number clause = m := by
  have hsame : ∀ e ∈ m.malformed,
      (if e.index = number then { e with clause } else e : Malformed) = e :=
    fun e he => if_neg (h e he)
  rw [reclause, List.map_congr_left hsame, List.map_id']

end Message

namespace Grammar

variable {g : Grammar} {resolve : String → Option α} {always : Bool} {index : Nat} {lowered : String}
  {meaning : α} {clause : Clause} {next : Option Word} {taken taken' front back : List Word}
  {word separator : Word}

theorem isSeparator_of_mem (h : separator ∈ g.separatorWords) : g.isSeparator separator := by
  simpa [isSeparator] using h

/-! ### Words of a clause -/

/-- A separator with a number behind it in the same word. -/
theorem Accepted.joined (h : g.Accepted) (hseparator : separator ∈ g.separatorWords) {n : Word}
    (hn : Text.isDigits n) :
    g.isSeparator (separator ++ n) = false ∧ g.isSeparatedDigits (separator ++ n) := by
  obtain ⟨hne, hall⟩ := Word.isDigits_iff.mp hn
  constructor
  · rw [isSeparator, List.contains_eq_mem, decide_eq_false_iff_not]
    intro hmem
    obtain ⟨c, hc⟩ := List.exists_mem_of_ne_nil n hne
    have hplain := ((h.separators _ hmem).plain c (List.mem_append_right _ hc)).2
    rw [hall c hc] at hplain
    cases hplain
  · rw [isSeparatedDigits, List.any_eq_true]
    refine ⟨separator, hseparator, ?_⟩
    simp [Text.dropStart?, hn]

/-- However a clause is spaced out, its words are taken together. -/
theorem Accepted.takes_of_spacing (h : g.Accepted) (hclause : clause.IsParted g next)
    (hspacing : taken ∈ clause.spacings) :
    g.Takes taken next ∧ taken.isEmpty = false ∧ taken.flatten = clause.text := by
  cases clause with
  | absent => exact hclause.elim
  | duration n => exact hclause.elim
  | delay d separator =>
      obtain ⟨hd, hseparator, hnext⟩ := hclause
      obtain ⟨hne, hall⟩ := Word.isDigits_iff.mp hd
      have hends := h.endsInSeparator_append [] hd
      have hopen := endsInSeparator_separator hne hseparator
      have htiming := Word.startsLikeTiming_append hne hall separator
      simp only [Clause.spacings, List.mem_cons, List.not_mem_nil, or_false] at hspacing
      rcases hspacing with rfl | rfl
      · exact ⟨.opened htiming hopen hnext, rfl, rfl⟩
      · exact ⟨.parted hd hends (isSeparator_of_mem hseparator) hnext, rfl,
          by simp [Clause.text, Clause.words]⟩
  | both d separator n =>
      obtain ⟨hd, hseparator, hn⟩ := hclause
      obtain ⟨hne, hall⟩ := Word.isDigits_iff.mp hd
      have hends := h.endsInSeparator_append [] hd
      have hopen := endsInSeparator_separator hne hseparator
      have htiming := Word.startsLikeTiming_append hne hall separator
      have hwhole := Word.startsLikeTiming_append hne hall (separator ++ n)
      rw [← List.append_assoc] at hwhole
      simp only [Clause.spacings, List.mem_cons, List.not_mem_nil, or_false] at hspacing
      rcases hspacing with rfl | rfl | rfl | rfl
      · have hclosed := h.endsInSeparator_append (d ++ separator) hn
        have hdigits := (h.separators separator hseparator).not_isDigits d n
        exact ⟨.solid hwhole hclosed hdigits, rfl, rfl⟩
      · exact ⟨.completed htiming hopen hn, rfl, by simp [Clause.text, Clause.words]⟩
      · obtain ⟨hwhole, hjoined⟩ := h.joined hseparator hn
        exact ⟨.joined hd hends hwhole hjoined, rfl, by simp [Clause.text, Clause.words]⟩
      · exact ⟨.spread hd hends (isSeparator_of_mem hseparator) hn, rfl,
          by simp [Clause.text, Clause.words]⟩

/-- The separator has no say in the timing. -/
theorem Accepted.parseTiming_withSeparator (h : g.Accepted) (hclause : clause.IsParted g next)
    (hseparator : separator ∈ g.separatorWords) :
    g.parseTiming (clause.withSeparator separator).text = g.parseTiming clause.text := by
  cases clause with
  | absent => exact hclause.elim
  | duration n => exact hclause.elim
  | delay d separator' =>
      obtain ⟨hd, hseparator', -⟩ := hclause
      simp only [Clause.withSeparator, Clause.text, Clause.words, List.flatten_cons,
        List.flatten_nil, List.append_nil]
      rw [h.parseTiming_delay hseparator hd, h.parseTiming_delay hseparator' hd]
  | both d separator' n =>
      obtain ⟨hd, hseparator', hn⟩ := hclause
      simp only [Clause.withSeparator, Clause.text, Clause.words, List.flatten_cons,
        List.flatten_nil, List.append_nil]
      rw [h.parseTiming_both hseparator hd hn, h.parseTiming_both hseparator' hd hn]

/-- A command whose clause has another text with the same timing comes to the same, but for the text of
a malformed clause. -/
theorem outcome_reclause (htiming : g.parseTiming taken'.flatten = g.parseTiming taken.flatten)
    (htaken : taken.isEmpty = false) (htaken' : taken'.isEmpty = false) :
    g.outcome index lowered meaning taken' =
      (g.outcome index lowered meaning taken).reclause index (String.ofList taken'.flatten) := by
  simp only [outcome, htaken, htaken', htiming]
  cases g.parseTiming taken.flatten with
  | ok timing => rfl
  | error fault => simp [Message.reclause]

/-! ### Messages -/

/-- However the clause of a command is spaced out, and whichever separator is in it, the text is read as
the same message, but for the text of the clause in the error of this command, if it has one. -/
theorem read?_respaced {g : Grammar} (hg : g.fault? = none)
    (hseparator : separator ∈ g.separatorWords) (hclause : clause.IsParted g back.head?)
    (hmeets : g.Meets resolve always always 0 front word index lowered meaning)
    (htaken : taken ∈ clause.spacings) {text : String}
    (htext : Text.words text = front ++ word :: (taken ++ back)) :
    ∃ m, g.read? resolve always text = some m ∧
      (∀ taken' ∈ clause.spacings, ∀ text',
        Text.words text' = front ++ word :: (taken' ++ back) →
          g.read? resolve always text' = some m) ∧
      ∀ taken' ∈ (clause.withSeparator separator).spacings, ∀ text',
        Text.words text' = front ++ word :: (taken' ++ back) →
          g.read? resolve always text' =
            some (m.reclause index (String.ofList (clause.withSeparator separator).text)) := by
  have h := accepted_of_fault?_eq_none hg
  obtain ⟨before, hbefore, hscan⟩ := hmeets.exists_scan
  obtain ⟨last, hafter⟩ := g.exists_within resolve always true (index + 1) back
  obtain ⟨htakes, hne, hflatten⟩ := h.takes_of_spacing hclause htaken
  refine ⟨_, hmeets.read? htext, ?_, ?_⟩
  · intro taken' htaken' text' htext'
    obtain ⟨htakes', hne', hflatten'⟩ := h.takes_of_spacing hclause htaken'
    have hsame : g.outcome index lowered meaning taken' = g.outcome index lowered meaning taken := by
      simp only [outcome, hne, hne', hflatten, hflatten']
    rw [hmeets.read? htext', htext', htext, hscan _ _ htakes', hscan _ _ htakes, hsame]
  · intro taken' htaken' text' htext'
    obtain ⟨htakes', hne', hflatten'⟩ :=
      h.takes_of_spacing (hclause.withSeparator hseparator) htaken'
    have htiming : g.parseTiming taken'.flatten = g.parseTiming taken.flatten := by
      rw [hflatten, hflatten', h.parseTiming_withSeparator hclause hseparator]
    -- The commands before and behind have other numbers.
    have hfront : ∀ e ∈ before.malformed, e.index ≠ index :=
      fun e he => Nat.ne_of_lt (hbefore.malformed e he).2
    have hback : ∀ e ∈ (g.scan resolve always true (index + 1) back).malformed, e.index ≠ index :=
      fun e he => Nat.ne_of_gt (hafter.malformed e he).1
    rw [hmeets.read? htext', htext', htext, ← hflatten']
    refine congrArg some ?_
    calc g.scan resolve always always 0 (front ++ word :: (taken' ++ back))
        = before ++ (g.outcome index lowered meaning taken' ++
            g.scan resolve always true (index + 1) back) := hscan _ _ htakes'
      _ = before ++ ((g.outcome index lowered meaning taken).reclause index
            (String.ofList taken'.flatten) ++ g.scan resolve always true (index + 1) back) := by
          rw [outcome_reclause htiming hne hne']
      _ = (before ++ (g.outcome index lowered meaning taken ++
            g.scan resolve always true (index + 1) back)).reclause index
              (String.ofList taken'.flatten) := by
          rw [Message.reclause_append, Message.reclause_append, Message.reclause_eq_self hfront,
            Message.reclause_eq_self hback]
      _ = (g.scan resolve always always 0 (front ++ word :: (taken ++ back))).reclause index
            (String.ofList taken'.flatten) := by
          rw [hscan _ _ htakes]

/-- A message with prose, a complete command, a delay beyond 32 bits in the clause of a second command,
and prose behind. -/
def beyondMessage : Message Nat where
  commands := [{ index := 0, word := "up", meaning := 0, timing := { duration := some 500 } }]
  malformed := [{ index := 1, word := "left", clause := "99999999999->20", fault := .overflow }]
  unknown := ["lol"]

theorem read?_respaced_beyond :
    let read := ({} : Grammar).read? (fun word => ["up", "left"].idxOf? word) false
    read "gg +Up 500 left 99999999999-> 20 lol" = some beyondMessage ∧
    read "gg +Up 500 left 99999999999 -> 20 lol" = some beyondMessage ∧
    read "gg +Up 500 left 99999999999 +20 lol" =
      some (beyondMessage.reclause 1 "99999999999+20") := by
  have hclause : Clause.IsParted {} ["lol".toList].head?
      (.both "99999999999".toList "->".toList "20".toList) :=
    ⟨by decide, by decide, by decide⟩
  have hseparator : "+".toList ∈ ({} : Grammar).separatorWords := by decide
  have htaken : ["99999999999->".toList, "20".toList] ∈
      (Clause.both "99999999999".toList "->".toList "20".toList).spacings := by
    decide
  have htext : Text.words "gg +Up 500 left 99999999999-> 20 lol" =
      ["gg".toList, "+Up".toList, "500".toList] ++ "left".toList ::
        (["99999999999->".toList, "20".toList] ++ ["lol".toList]) := by
    decide
  obtain ⟨m, hread, hspacings, hseparators⟩ :=
    read?_respaced (by decide) hseparator hclause meets_left htaken htext
  have hsame : m = beyondMessage := by
    rw [← Option.some_inj, ← hread]
    decide +kernel
  subst hsame
  refine ⟨hread, ?_, ?_⟩
  · exact hspacings ["99999999999".toList, "->".toList, "20".toList] (by decide) _ (by decide)
  · exact hseparators ["99999999999".toList, "+20".toList] (by decide) _ (by decide)

end Grammar

end CrowdPad
