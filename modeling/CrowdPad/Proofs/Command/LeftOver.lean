import CrowdPad.Proofs.Command.Parts
import CrowdPad.Proofs.Command.Timing

/-! Faulty timing. A word that looks like timing and is no clause spoils every clause that takes it in.
Behind a command word it is always taken in, and so is a number behind an open clause. Any other word of
this sort is left over: the scan passes it over, and no error tells of it. -/

namespace CrowdPad

namespace Grammar

variable {α : Type} {g : Grammar} {resolve : String → Option α} {always : Bool}
  {word first n separator : Word} {taken : List Word} {next : Option Word}

/-! ### Words and separators -/

/-- No word that a separator begins looks like timing. -/
theorem startsLikeTiming_of_separator (hg : g.fault? = none)
    (hseparator : separator ∈ g.separatorWords) (rest : Word) :
    (separator ++ rest).startsLikeTiming = false := by
  have husable := (accepted_of_fault?_eq_none hg).separators separator hseparator
  rw [husable.startsLikeTiming_append, decide_eq_false (separator_ne_minus hg hseparator),
    Bool.false_and]

theorem mem_of_isSeparator (hword : g.isSeparator word) : word ∈ g.separatorWords := by
  simpa [isSeparator] using hword

theorem startsLikeTiming_of_isSeparator (hg : g.fault? = none) (hword : g.isSeparator word) :
    word.startsLikeTiming = false := by
  have htiming := startsLikeTiming_of_separator hg (mem_of_isSeparator hword) []
  rwa [List.append_nil] at htiming

theorem exists_of_isSeparatedDigits (hword : g.isSeparatedDigits word) :
    ∃ separator ∈ g.separatorWords, ∃ n, Text.isDigits n ∧ word = separator ++ n := by
  obtain ⟨separator, hseparator, hrest⟩ := List.any_eq_true.mp hword
  unfold Text.dropStart? at hrest
  split at hrest
  · rename_i hlead
    obtain ⟨n, rfl⟩ := List.isPrefixOf_iff_prefix.mp hlead
    rw [List.drop_left] at hrest
    exact ⟨separator, hseparator, n, hrest, rfl⟩
  · cases hrest

/-! ### Refused clauses -/

/-- Whether a text is no timing clause. -/
def Refuses (g : Grammar) (word : Word) : Prop := ∃ fault, g.parseTiming word = .error fault

theorem not_refuses_of_eq_ok {timing : Timing} (h : g.parseTiming word = .ok timing) :
    ¬ g.Refuses word := by
  rintro ⟨fault, hfault⟩
  rw [h] at hfault
  cases hfault

/-- A number is refused if it is too large. -/
theorem Accepted.millis_of_refuses (h : g.Accepted) (hn : Text.isDigits n) (hrefuses : g.Refuses n) :
    ∃ fault, n.millis = .error fault := by
  have htiming : g.parseTiming n = do return { duration := some (← n.millis) } := by
    rw [Grammar.parseTiming, Word.splitSeparator?_digits h.separators (Word.isDigits_iff.mp hn).2]
  cases hmillis : n.millis with
  | ok ms =>
      rw [hmillis] at htiming
      exact absurd hrefuses (not_refuses_of_eq_ok htiming)
  | error fault => exact ⟨fault, rfl⟩

theorem Accepted.refuses_delay (h : g.Accepted) (hseparator : separator ∈ g.separatorWords)
    (hn : Text.isDigits n) (hrefuses : g.Refuses n) : g.Refuses (n ++ separator) := by
  obtain ⟨fault, hfault⟩ := h.millis_of_refuses hn hrefuses
  exact ⟨fault, by rw [h.parseTiming_delay hseparator hn, hfault]; rfl⟩

theorem Accepted.refuses_both (h : g.Accepted) (hseparator : separator ∈ g.separatorWords) {d : Word}
    (hd : Text.isDigits d) (hn : Text.isDigits n) (hrefuses : g.Refuses d ∨ g.Refuses n) :
    g.Refuses (d ++ separator ++ n) := by
  unfold Refuses
  rw [h.parseTiming_both hseparator hd hn]
  cases hdelay : d.millis with
  | error fault => exact ⟨fault, rfl⟩
  | ok delay =>
      rcases hrefuses with hrefuses | hrefuses
      · obtain ⟨fault, hfault⟩ := h.millis_of_refuses hd hrefuses
        rw [hdelay] at hfault
        cases hfault
      · obtain ⟨fault, hfault⟩ := h.millis_of_refuses hn hrefuses
        exact ⟨fault, by rw [hfault]; rfl⟩

/-- No digit stands behind the separator that ends a word. -/
theorem Accepted.eq_nil_of_endsInSeparator (h : g.Accepted) (before : Word)
    (hends : g.endsInSeparator (before ++ n)) (hn : ∀ c ∈ n, Text.isDigit c) : n = [] := by
  by_contra hne
  rw [h.endsInSeparator_append before (Word.isDigits_iff.mpr ⟨hne, hn⟩)] at hends
  cases hends

/-- A clause that is a word with an open end and the number behind it is a delay and a duration. -/
theorem Accepted.parts_of_completed (h : g.Accepted) (hends : g.endsInSeparator first)
    (hn : Text.isDigits n) {timing : Timing} (htiming : g.parseTiming (first ++ n) = .ok timing) :
    ∃ d, ∃ separator ∈ g.separatorWords, d.IsMillis ∧ n.IsMillis ∧ first = d ++ separator := by
  obtain ⟨clause, ⟨hwritten, hwords⟩, -⟩ := reads_of_parseTiming htiming
  have hclosed := h.endsInSeparator_append first hn
  have hall := (Word.isDigits_iff.mp hn).2
  cases clause with
  | absent => cases hwords
  | duration digits =>
      obtain rfl := (List.cons.inj hwords).1
      have hdigits := hwritten.all
      obtain rfl := h.eq_nil_of_endsInSeparator [] hends fun c hc =>
        hdigits c (List.mem_append_left _ hc)
      simp [endsInSeparator] at hends
  | delay d separator =>
      obtain ⟨hd, hseparator⟩ := hwritten
      have hopen := endsInSeparator_separator hd.ne_nil hseparator
      rw [(List.cons.inj hwords).1, hclosed] at hopen
      cases hopen
  | both d separator n' =>
      obtain ⟨hd, hseparator, hn'⟩ := hwritten
      have hopen := endsInSeparator_separator hd.ne_nil hseparator
      -- Neither of the two numbers at the end reaches further than the other.
      rcases List.append_eq_append_iff.mp (List.cons.inj hwords).1 with
        ⟨more, rfl, rfl⟩ | ⟨more, hfront, rfl⟩
      · obtain rfl := h.eq_nil_of_endsInSeparator _ hends fun c hc =>
          hn'.all c (List.mem_append_left _ hc)
        exact ⟨d, separator, hseparator, hd, hn', List.append_nil _⟩
      · rw [hfront] at hopen
        obtain rfl := h.eq_nil_of_endsInSeparator _ hopen fun c hc =>
          hall c (List.mem_append_left _ hc)
        rw [List.append_nil] at hfront
        exact ⟨d, separator, hseparator, hd, hn', hfront.symm⟩

theorem Accepted.refuses_completed (h : g.Accepted) (hends : g.endsInSeparator first)
    (hn : Text.isDigits n) (hrefuses : g.Refuses first ∨ g.Refuses n) :
    g.Refuses (first ++ n) := by
  cases htiming : g.parseTiming (first ++ n) with
  | error fault => exact ⟨fault, htiming⟩
  | ok timing =>
      obtain ⟨d, separator, hseparator, hd, hn, rfl⟩ := h.parts_of_completed hends hn htiming
      have hdelay : (Clause.delay d separator).IsWritten g := ⟨hd, hseparator⟩
      have hduration : (Clause.duration n).IsWritten g := hn
      rcases hrefuses with hrefuses | hrefuses
      · exact absurd hrefuses (not_refuses_of_eq_ok (h.parseTiming hdelay rfl))
      · exact absurd hrefuses (not_refuses_of_eq_ok (h.parseTiming hduration rfl))

/-- A word that looks like timing and is no clause spoils the clause that takes it in. -/
theorem refuses_of_mem (hg : g.fault? = none) (htakes : g.Takes taken next) (hword : word ∈ taken)
    (htiming : word.startsLikeTiming) (hrefuses : g.Refuses word) : g.Refuses taken.flatten := by
  have h := accepted_of_fault?_eq_none hg
  cases htakes with
  | absent => cases hword
  | solid _ hends hdigits =>
      obtain rfl := List.mem_singleton.mp hword
      rwa [List.flatten_singleton]
  | opened _ hends hnext =>
      obtain rfl := List.mem_singleton.mp hword
      rwa [List.flatten_singleton]
  | number hdigits hends hseparator hseparated =>
      obtain rfl := List.mem_singleton.mp hword
      rwa [List.flatten_singleton]
  | completed _ hends hn =>
      rw [List.flatten_cons, List.flatten_singleton]
      rcases List.mem_pair.mp hword with rfl | rfl
      · exact h.refuses_completed hends hn (.inl hrefuses)
      · exact h.refuses_completed hends hn (.inr hrefuses)
  | joined hdigits hends hseparator hseparated =>
      obtain ⟨separator, hmem, n, hn, rfl⟩ := exists_of_isSeparatedDigits hseparated
      rw [List.flatten_cons, List.flatten_singleton, ← List.append_assoc]
      rcases List.mem_pair.mp hword with rfl | rfl
      · exact h.refuses_both hmem hdigits hn (.inl hrefuses)
      · rw [startsLikeTiming_of_separator hg hmem] at htiming
        cases htiming
  | parted hdigits hends hseparator hnext =>
      rw [List.flatten_cons, List.flatten_singleton]
      rcases List.mem_pair.mp hword with rfl | rfl
      · exact h.refuses_delay (mem_of_isSeparator hseparator) hdigits hrefuses
      · rw [startsLikeTiming_of_isSeparator hg hseparator] at htiming
        cases htiming
  | spread hdigits hends hseparator hn =>
      have hmem := mem_of_isSeparator hseparator
      rw [List.flatten_cons, List.flatten_cons, List.flatten_singleton, ← List.append_assoc]
      rcases List.mem_cons.mp hword with rfl | hword
      · exact h.refuses_both hmem hdigits hn (.inl hrefuses)
      · rcases List.mem_pair.mp hword with rfl | rfl
        · rw [startsLikeTiming_of_isSeparator hg hseparator] at htiming
          cases htiming
        · exact h.refuses_both hmem hdigits hn (.inr hrefuses)

/-! ### What is taken in -/

/-- Whether a separator ends a clause, so that a number behind it belongs to it. -/
def isOpen (g : Grammar) (clause : List Word) : Bool :=
  clause.getLast?.any fun word => g.endsInSeparator word || g.isSeparator word

theorem isOpen_concat (g : Grammar) (front : List Word) (last : Word) :
    g.isOpen (front ++ [last]) = (g.endsInSeparator last || g.isSeparator last) := by
  rw [isOpen, List.getLast?_concat]
  rfl

theorem isOpen_of_timing (hg : g.fault? = none) (front : List Word) (htiming : word.startsLikeTiming)
    (hends : g.endsInSeparator word = false) : g.isOpen (front ++ [word]) = false := by
  rw [isOpen_concat, hends, Bool.false_or]
  cases hseparator : g.isSeparator word with
  | false => rfl
  | true =>
      rw [startsLikeTiming_of_isSeparator hg hseparator] at htiming
      cases htiming

theorem isOpen_of_isDigits (hg : g.fault? = none) (front : List Word) (hn : Text.isDigits n) :
    g.isOpen (front ++ [n]) = false :=
  isOpen_of_timing hg front (Word.startsLikeTiming_of_isDigits hn)
    ((accepted_of_fault?_eq_none hg).endsInSeparator_append [] hn)

/-- A word that looks like timing and is not taken in stands behind other words of a clause, and if it
is a number, behind a clause that is not open. -/
theorem closed_of_takes (hg : g.fault? = none) (htakes : g.Takes taken (some word))
    (htiming : word.startsLikeTiming) :
    taken ≠ [] ∧ (Text.isDigits word → g.isOpen taken = false) := by
  cases htakes with
  | absent hnext =>
      rw [hnext word rfl] at htiming
      cases htiming
  | solid hfirst hends hdigits =>
      exact ⟨List.cons_ne_nil _ _, fun _ => isOpen_of_timing hg [] hfirst hends⟩
  | opened hfirst hends hnext =>
      refine ⟨List.cons_ne_nil _ _, fun hword => ?_⟩
      rw [hnext word rfl] at hword
      cases hword
  | completed hfirst hends hn =>
      exact ⟨List.cons_ne_nil _ _, fun _ => isOpen_of_isDigits hg [_] hn⟩
  | number hdigits hends hseparator hseparated =>
      exact ⟨List.cons_ne_nil _ _, fun _ => isOpen_of_isDigits hg [] hdigits⟩
  | joined hdigits hends hseparator hseparated =>
      refine ⟨List.cons_ne_nil _ _, fun _ => ?_⟩
      obtain ⟨separator, hmem, n, hn, rfl⟩ := exists_of_isSeparatedDigits hseparated
      have hclosed := (accepted_of_fault?_eq_none hg).endsInSeparator_append separator hn
      exact (isOpen_concat g [_] _).trans (by rw [hclosed, hseparator]; rfl)
  | parted hdigits hends hseparator hnext =>
      refine ⟨List.cons_ne_nil _ _, fun hword => ?_⟩
      rw [hnext word rfl] at hword
      cases hword
  | spread hdigits hends hseparator hn =>
      exact ⟨List.cons_ne_nil _ _, fun _ => isOpen_of_isDigits hg [_, _] hn⟩

/-! ### Faulty words of a text -/

/-- Whether a word without the marker looks like timing and is no timing clause. -/
structure IsFaulty (g : Grammar) (word : Word) : Prop where
  unmarked : g.marked? word = none
  timing : word.startsLikeTiming
  refused : g.Refuses word

theorem IsFaulty.candidate? (h : g.IsFaulty word) (inRun : Bool) : g.candidate? inRun word = none := by
  simp [Grammar.candidate?, h.unmarked, h.timing]

/-- A command whose clause is spoilt is told of as an error, and not as a command. -/
theorem told_of_spoilt (hg : g.fault? = none) {before behind : List (Part α)} {command : Word}
    {meaning : α} {clause : List Word} (htakes : g.Takes clause next) (hword : word ∈ clause)
    (htiming : word.startsLikeTiming) (hrefuses : g.Refuses word) {m : Message α}
    (hm : m = g.tell 0 (before ++ .command command meaning clause :: behind)) :
    (∃ e ∈ m.malformed, e.index = before.countP Part.isCommand ∧ e.word = g.named command ∧
        e.clause = String.ofList clause.flatten) ∧
      ∀ c ∈ m.commands, c.index ≠ before.countP Part.isCommand := by
  obtain ⟨fault, hfault⟩ := refuses_of_mem hg htakes hword htiming hrefuses
  have hne : clause.isEmpty = false :=
    List.isEmpty_eq_false_iff.mpr (List.ne_nil_of_mem hword)
  let e : Malformed :=
    { index := before.countP Part.isCommand, word := g.named command
      clause := String.ofList clause.flatten, fault }
  have houtcome : g.outcome (before.countP Part.isCommand) (g.named command) meaning clause =
      { malformed := [e] } := by
    simp [outcome, hne, hfault, e]
  have he : e ∈ m.malformed := by
    rw [hm, tell_append, tell, Nat.zero_add, houtcome]
    simp
  subst hm
  refine ⟨⟨e, he, rfl, rfl, rfl⟩, fun c hc => ?_⟩
  exact (g.numbered_tell 0 _).apart List.nodup_range' hc he

/-- **Faulty timing.** A word without the marker that looks like timing and is no clause is a word of a
clause that an error tells of, with the number of a command that is not executed; or it is left over. A
word that is left over does not stand behind a command word, and a number that is left over does not
stand behind an open clause either. -/
theorem read?_faulty {g : Grammar} (hg : g.fault? = none) {text : String} {m : Message α}
    (hread : g.read? resolve always text = some m) :
    ∃ parts, g.Parted resolve always always (Text.words text) parts ∧ m = g.tell 0 parts ∧
      ∀ before part behind, parts = before ++ part :: behind →
        ∀ word ∈ part.words, g.IsFaulty word →
          (∃ command meaning clause, part = .command command meaning clause ∧ word ∈ clause ∧
            (∃ e ∈ m.malformed, e.index = before.countP Part.isCommand ∧
              e.word = g.named command ∧ e.clause = String.ofList clause.flatten) ∧
            ∀ c ∈ m.commands, c.index ≠ before.countP Part.isCommand) ∨
          (part = .passed word ∧ ∀ command meaning clause,
            before.getLast? = some (.command command meaning clause) →
              clause ≠ [] ∧ (Text.isDigits word → g.isOpen clause = false)) := by
  obtain ⟨parts, hparted, hm⟩ := parted_of_read? hread
  refine ⟨parts, hparted, hm, ?_⟩
  rintro before part behind rfl word hword hfaulty
  obtain ⟨inRun, hfinds, -⟩ := hparted.split
  cases part with
  | passed word' =>
      obtain rfl := List.mem_singleton.mp hword
      refine .inr ⟨rfl, fun command meaning clause hlast => ?_⟩
      obtain ⟨front, rfl⟩ := List.getLast?_eq_some_iff.mp hlast
      rw [List.append_assoc] at hparted
      obtain ⟨_, ⟨-, -, htakes⟩, -⟩ := hparted.split
      exact closed_of_takes hg htakes hfaulty.timing
  | unknown word' =>
      obtain rfl := List.mem_singleton.mp hword
      have hcandidate := hfinds.1
      rw [hfaulty.candidate?] at hcandidate
      cases hcandidate
  | command command meaning clause =>
      obtain ⟨hcandidate, -, htakes⟩ := hfinds
      rcases List.mem_cons.mp hword with rfl | hword
      · rw [hfaulty.candidate?] at hcandidate
        cases hcandidate
      · have htold := told_of_spoilt hg htakes hword hfaulty.timing hfaulty.refused hm
        exact .inl ⟨command, meaning, clause, rfl, hword, htold⟩

/-- A message with a negative duration, a duration beyond 32 bits in a clause of three words, and a word
that is left over. -/
def faultyText : String := "+Up -5 left 200 -> 99999999999 up 7 12x"

def faultyMessage : Message Nat where
  commands := [{ index := 2, word := "up", meaning := 0, timing := { duration := some 7 } }]
  malformed :=
    [{ index := 0, word := "up", clause := "-5", fault := .negative },
      { index := 1, word := "left", clause := "200->99999999999", fault := .overflow }]

def faultyParts : List (Part Nat) :=
  [.command "+Up".toList 0 ["-5".toList],
    .command "left".toList 1 ["200".toList, "->".toList, "99999999999".toList],
    .command "up".toList 0 ["7".toList], .passed "12x".toList]

theorem read?_faulty_spread :
    let resolve := fun word => ["up", "left"].idxOf? word
    ({} : Grammar).fault? = none ∧
    ({} : Grammar).read? resolve false faultyText = some faultyMessage ∧
    ({} : Grammar).IsFaulty "99999999999".toList ∧
    (∃ e ∈ faultyMessage.malformed, e.index = 1 ∧ e.word = "left" ∧ e.clause = "200->99999999999") ∧
    ∀ c ∈ faultyMessage.commands, c.index ≠ 1 := by
  intro resolve
  have hg : ({} : Grammar).fault? = none := by decide
  have hread : ({} : Grammar).read? resolve false faultyText = some faultyMessage := by
    decide +kernel
  have hparts : ({} : Grammar).Parted resolve false false (Text.words faultyText) faultyParts := by
    decide +kernel
  have hfaulty : ({} : Grammar).IsFaulty "99999999999".toList :=
    ⟨by decide, by decide, .overflow, by decide⟩
  obtain ⟨parts, hparted, -, htold⟩ := read?_faulty hg hread
  obtain rfl := hparted.unique hparts
  have hword := htold [.command "+Up".toList 0 ["-5".toList]]
    (.command "left".toList 1 ["200".toList, "->".toList, "99999999999".toList])
    [.command "up".toList 0 ["7".toList], .passed "12x".toList] rfl "99999999999".toList (by decide)
    hfaulty
  rcases hword with ⟨command, meaning, clause, hpart, -, herror, honly⟩ | ⟨hpart, -⟩
  · cases hpart
    exact ⟨hg, hread, hfaulty, herror, honly⟩
  · cases hpart

/-- A negative duration behind a separator that is a word of its own is left over, and the command goes on
without it. Written as one word, the same clause is an error. -/
theorem faulty_word_left_over :
    let resolve := fun word => ["up", "left"].idxOf? word
    let left : Command Nat := { index := 1, word := "left", meaning := 1, timing := {} }
    ({} : Grammar).fault? = none ∧ ({} : Grammar).IsFaulty "-5".toList ∧
    ({} : Grammar).Parted resolve false false (Text.words "+up 200 + -5 +left")
      [.command "+up".toList 0 ["200".toList, "+".toList], .passed "-5".toList,
        .command "+left".toList 1 []] ∧
    ({} : Grammar).read? resolve false "+up 200 + -5 +left" = some {
      commands := [{ index := 0, word := "up", meaning := 0, timing := { delay := 200 } }, left] } ∧
    ({} : Grammar).read? resolve false "+up 200+-5 +left" = some {
      commands := [left]
      malformed := [{ index := 0, word := "up", clause := "200+-5", fault := .negative }] } := by
  intro resolve left
  refine ⟨by decide, ⟨by decide, by decide, .negative, by decide⟩, ?_, ?_, ?_⟩
  · decide +kernel
  · decide +kernel
  · decide +kernel

end Grammar

end CrowdPad
