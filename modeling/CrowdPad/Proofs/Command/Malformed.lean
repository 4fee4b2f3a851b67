import CrowdPad.Proofs.Command.Course

/-! Malformed clauses. A malformed clause costs its own command only: with a readable clause in its place
the text is read as the same message, with that command in it and without the error. -/

namespace CrowdPad

variable {α : Type}

/-- How a message changes when the clause behind the error `e` is mended: the command `c` comes in and
the error goes, and nothing else has its number. -/
structure Message.Mended (m m' : Message α) (e : Malformed) (c : Command α) : Prop where
  unknown : m'.unknown = m.unknown
  commands : ∃ before after, m.commands = before ++ after ∧ m'.commands = before ++ c :: after
  malformed : ∃ before after, m.malformed = before ++ e :: after ∧ m'.malformed = before ++ after
  index : c.index = e.index
  word : c.word = e.word
  only_command : ∀ other ∈ m.commands, other.index ≠ e.index
  only_malformed : ∀ other ∈ m'.malformed, other.index ≠ e.index

namespace Grammar

variable {g : Grammar} {resolve : String → Option α} {always inRun inRun' : Bool}
  {index index' number : Nat} {word candidate separator : Word} {words taken front back : List Word}
  {next : Option Word} {lowered : String} {meaning : α} {found : Message α} {e : Malformed}

/-! ### The place of a malformed clause -/

/-- Whether these words, with `next` behind them, are the clause that the error reports. -/
structure IsSpoilt (g : Grammar) (e : Malformed) (taken : List Word) (next : Option Word) : Prop where
  takes : g.Takes taken next
  ne_nil : taken ≠ []
  clause : String.ofList taken.flatten = e.clause
  fault : g.parseTiming taken.flatten = .error e.fault

theorem IsSpoilt.outcome (h : g.IsSpoilt e taken next) (meaning : α) :
    g.outcome e.index e.word meaning taken = { malformed := [e] } := by
  have hne : taken.isEmpty = false := List.isEmpty_eq_false_iff.mpr h.ne_nil
  simp [Grammar.outcome, hne, h.fault, h.clause]

theorem isSpoilt_of_outcome (htakes : g.Takes taken next)
    (he : e ∈ (g.outcome index lowered meaning taken).malformed) :
    g.IsSpoilt e taken next ∧ e.index = index ∧ e.word = lowered := by
  unfold Grammar.outcome at he
  split at he
  · cases he
  · rename_i hne
    split at he
    · cases he
    · rename_i fault hfault
      obtain rfl := List.mem_singleton.mp he
      exact ⟨⟨htakes, by simpa using hne, rfl, hfault⟩, rfl, rfl⟩

theorem Meets.pass (hcandidate : g.candidate? inRun word = none) {first : Word}
    (h : g.Meets resolve always inRun index front first number lowered meaning) :
    g.Meets resolve always inRun index (word :: front) first number lowered meaning := by
  obtain ⟨found, inRun', candidate, hfront, hmet⟩ := h
  exact ⟨found, inRun', candidate, .pass hcandidate hfront, hmet⟩

theorem Meets.unknown (hcandidate : g.candidate? inRun word = some candidate)
    (hresolve : resolve (Text.lower (String.ofList candidate)) = none) {first : Word}
    (h : g.Meets resolve always always index front first number lowered meaning) :
    g.Meets resolve always inRun index (word :: front) first number lowered meaning := by
  obtain ⟨found, inRun', candidate', hfront, hmet⟩ := h
  exact ⟨_, inRun', candidate', .unknown hcandidate hresolve hfront, hmet⟩

theorem Meets.command {earlier : α} (hcandidate : g.candidate? inRun word = some candidate)
    (hresolve : resolve (Text.lower (String.ofList candidate)) = some earlier) {first : Word}
    (htakes : g.Takes taken (front.head?.or (some first)))
    (h : g.Meets resolve always true (index + 1) front first number lowered meaning) :
    g.Meets resolve always inRun index (word :: (taken ++ front)) first number lowered meaning := by
  obtain ⟨found, inRun', candidate', hfront, hmet⟩ := h
  exact ⟨_, inRun', candidate', .command hcandidate hresolve htakes hfront, hmet⟩

/-- Behind an error stands a command with a malformed clause. -/
theorem Scans.exists_spoilt (h : g.Scans resolve always next inRun index words found inRun' index')
    (he : e ∈ found.malformed) :
    ∃ front word taken back meaning, words = front ++ word :: (taken ++ back) ∧
      g.Meets resolve always inRun index front word e.index e.word meaning ∧
      g.IsSpoilt e taken (back.head?.or next) := by
  induction h with
  | done => cases he
  | pass hcandidate hrest ih =>
      obtain ⟨front, first, taken, back, meaning, rfl, hmeets, hspoilt⟩ := ih he
      exact ⟨_, first, taken, back, meaning, rfl, hmeets.pass hcandidate, hspoilt⟩
  | unknown hcandidate hresolve hrest ih =>
      obtain ⟨front, first, taken, back, meaning, rfl, hmeets, hspoilt⟩ := ih he
      exact ⟨_, first, taken, back, meaning, rfl, hmeets.unknown hcandidate hresolve, hspoilt⟩
  | @command _ _ _ _ word candidate earlier words meaning _ hcandidate hresolve htakes hrest ih =>
      rcases List.mem_append.mp he with he | he
      · obtain ⟨hspoilt, hindex, hword⟩ := isSpoilt_of_outcome htakes he
        refine ⟨[], word, earlier, words, meaning, rfl, ?_, hspoilt⟩
        exact ⟨{}, _, candidate, hindex ▸ .done, hcandidate, hword.symm, hword ▸ hresolve⟩
      · obtain ⟨front, first, taken, back, meaning, rfl, hmeets, hspoilt⟩ := ih he
        refine ⟨word :: (earlier ++ front), first, taken, back, meaning, by simp, ?_, hspoilt⟩
        refine hmeets.command hcandidate hresolve ?_
        rwa [List.head?_append, Option.or_assoc, List.head?_cons, Option.some_or] at htakes

/-- The words of a text around a malformed clause and the command that it belongs to. -/
structure SpoiltAt (g : Grammar) (resolve : String → Option α) (always : Bool) (e : Malformed)
    (words front : List Word) (word : Word) (taken back : List Word) : Prop where
  words : words = front ++ word :: (taken ++ back)
  meets : ∃ meaning, g.Meets resolve always always 0 front word e.index e.word meaning
  spoilt : g.IsSpoilt e taken back.head?

theorem exists_spoiltAt {text : String} {m : Message α}
    (hread : g.read? resolve always text = some m) (he : e ∈ m.malformed) :
    ∃ front word taken back,
      g.SpoiltAt resolve always e (Text.words text) front word taken back := by
  rw [scan_of_read? hread] at he
  obtain ⟨inRun', index', hscans⟩ := g.exists_scans resolve always always 0 (Text.words text)
  obtain ⟨front, word, taken, back, meaning, hwords, hmeets, hspoilt⟩ := hscans.exists_spoilt he
  rw [Option.or_none] at hspoilt
  exact ⟨front, word, taken, back, hwords, ⟨meaning, hmeets⟩, hspoilt⟩

/-! ### Mending -/

/-- The clause of no delay and no duration, written as one word. -/
def zeroWord (separator : Word) : Word := ['0'] ++ separator ++ ['0']

theorem Accepted.takes_zeroWord (h : g.Accepted) (hseparator : separator ∈ g.separatorWords) :
    g.Takes [zeroWord separator] next := by
  have hzero : Text.isDigits ['0'] := rfl
  obtain ⟨hne, hall⟩ := Word.isDigits_iff.mp hzero
  have htiming := Word.startsLikeTiming_append hne hall (separator ++ ['0'])
  have hdigits := (h.separators separator hseparator).not_isDigits ['0'] ['0']
  exact .solid htiming (h.endsInSeparator_append _ hzero) hdigits

theorem Accepted.outcome_zeroWord (h : g.Accepted) (hseparator : separator ∈ g.separatorWords) :
    g.outcome index lowered meaning [zeroWord separator] =
      { commands := [{ index, word := lowered, meaning, timing := { duration := some 0 } }] } := by
  have htiming := h.parseTiming_both hseparator (d := ['0']) (n := ['0']) rfl rfl
  simp only [Grammar.outcome, List.flatten_cons, List.flatten_nil, List.append_nil, zeroWord, htiming]
  rfl

/-- A malformed clause costs its own command only. Every error has its place in the text; with the
words of the clause replaced by the clause of no delay and no duration, the text is read as the same
message, with the command of that number and without the error. -/
theorem read?_mended {g : Grammar} (hg : g.fault? = none) (hseparator : separator ∈ g.separatorWords)
    {text : String} {m : Message α} (hread : g.read? resolve always text = some m)
    (he : e ∈ m.malformed) :
    (∃ front word taken back,
      g.SpoiltAt resolve always e (Text.words text) front word taken back) ∧
    ∀ front word taken back, g.SpoiltAt resolve always e (Text.words text) front word taken back →
      ∀ text', Text.words text' = front ++ word :: zeroWord separator :: back →
        ∃ m' c, g.read? resolve always text' = some m' ∧ m.Mended m' e c := by
  have h := accepted_of_fault?_eq_none hg
  refine ⟨exists_spoiltAt hread he, ?_⟩
  rintro front word taken back ⟨hwords, ⟨meaning, hmeets⟩, hspoilt⟩ text' hwords'
  obtain ⟨before, hbefore, hscan⟩ := hmeets.exists_scan
  obtain ⟨last, hafter⟩ := g.exists_within resolve always true (e.index + 1) back
  have hm := scan_of_read? hread
  rw [hwords, hscan _ _ hspoilt.takes, hspoilt.outcome] at hm
  have hread' := hmeets.read? hwords'
  rw [hwords', ← List.singleton_append (l := back), hscan _ _ (h.takes_zeroWord hseparator),
    h.outcome_zeroWord hseparator] at hread'
  refine ⟨_, { index := e.index, word := e.word, meaning, timing := { duration := some 0 } }, hread', ?_⟩
  generalize g.scan resolve always true (e.index + 1) back = after at hm hafter
  obtain ⟨hcommands, hmalformed⟩ := hbefore.apart hafter
  subst hm
  constructor
  · rfl
  · exact ⟨before.commands, after.commands, rfl, rfl⟩
  · exact ⟨before.malformed, after.malformed, rfl, rfl⟩
  · rfl
  · rfl
  · exact hcommands
  · exact hmalformed

/-- A message whose second command has a clause of three words with a delay beyond 32 bits. -/
def spreadMessage : Message Nat where
  commands :=
    [{ index := 0, word := "up", meaning := 0, timing := { duration := some 500 } },
      { index := 2, word := "up", meaning := 0, timing := { duration := some 7 } }]
  malformed := [{ index := 1, word := "left", clause := "99999999999,20", fault := .overflow }]

theorem read?_mended_spread :
    let read := ({} : Grammar).read? (fun word => ["up", "left"].idxOf? word) false
    read "gg +Up 500 left 99999999999 , 20 up 7" = some spreadMessage ∧
    ∃ m c, read "gg +Up 500 left 0->0 up 7" = some m ∧
      spreadMessage.Mended m
        { index := 1, word := "left", clause := "99999999999,20", fault := .overflow } c := by
  have hread : ({} : Grammar).read? (fun word => ["up", "left"].idxOf? word) false
      "gg +Up 500 left 99999999999 , 20 up 7" = some spreadMessage := by
    decide +kernel
  have hspoilt : ({} : Grammar).IsSpoilt
      { index := 1, word := "left", clause := "99999999999,20", fault := .overflow }
      ["99999999999".toList, ",".toList, "20".toList] (some "up".toList) :=
    ⟨.spread (by decide) (by decide) (by decide) (by decide), by decide, by decide, by decide⟩
  have hseparator : "->".toList ∈ ({} : Grammar).separatorWords := by decide
  obtain ⟨-, hmended⟩ := read?_mended (by decide) hseparator hread (List.mem_singleton_self _)
  exact ⟨hread, hmended _ _ _ ["up".toList, "7".toList] ⟨by decide, ⟨1, meets_left⟩, hspoilt⟩ _
    (by decide)⟩

end Grammar

end CrowdPad
