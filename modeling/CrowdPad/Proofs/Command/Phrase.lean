import CrowdPad.Command.Message
import CrowdPad.Proofs.Command.Clause
import CrowdPad.Proofs.Command.Scan
import CrowdPad.Proofs.Text.Words

/-! Messages as they are written. A message that is written command by command is read back as these
commands: the clause of a command never takes in a word of the next one, and a word that stands for a
command is never passed over as prose or as left-over timing. -/

namespace CrowdPad

variable {α : Type}

/-- A command as it is written: a word with or without the marker, and a clause. -/
structure Phrase (α : Type) where
  word : Word
  meaning : α
  marked : Bool
  clause : Clause
deriving Repr, DecidableEq

namespace Phrase

/-- The word of a phrase as it stands in the text. -/
def head (g : Grammar) (p : Phrase α) : Word :=
  if p.marked then g.marker.toList ++ p.word else p.word

def words (g : Grammar) (p : Phrase α) : List Word := p.head g :: p.clause.words

/-- The command that a phrase stands for, at its position among the commands. -/
def command (index : Nat) (p : Phrase α) : Command α :=
  { index, word := Text.lower (String.ofList p.word), meaning := p.meaning
    timing := p.clause.timing }

/-- What a phrase needs in order to be read back. -/
structure IsWritten (g : Grammar) (resolve : String → Option α) (p : Phrase α) : Prop where
  word : Text.IsWord p.word
  resolved : resolve (Text.lower (String.ofList p.word)) = some p.meaning
  unmarked : p.marked = false → g.marked? p.word = none
  clause : p.clause.IsWritten g
  outside : g.IsOutside (p.head g)

end Phrase

namespace Grammar

variable {g : Grammar} {resolve : String → Option α} {p : Phrase α}

/-! ### One phrase -/

theorem marked?_append (g : Grammar) {word : Word} (hne : word ≠ []) :
    g.marked? (g.marker.toList ++ word) = some word := by
  have hlead : g.marker.toList.isPrefixOf (g.marker.toList ++ word) := by simp
  rw [marked?, Text.dropStart?, if_pos hlead, List.drop_left]
  simp [Option.filter, hne]

theorem candidate?_head (hp : p.IsWritten g resolve) {inRun : Bool} (hrun : inRun ∨ p.marked) :
    g.candidate? inRun (p.head g) = some p.word := by
  cases hmarked : p.marked with
  | true =>
      rw [Phrase.head, if_pos hmarked, candidate?, marked?_append g hp.word.ne_nil]
  | false =>
      have hin : inRun := by simpa [hmarked] using hrun
      have hhead : p.head g = p.word := by simp [Phrase.head, hmarked]
      have htiming := hhead ▸ hp.outside.timing
      rw [hhead, candidate?, hp.unmarked hmarked]
      simp [hin, htiming]

/-- A phrase is read as its command, and what stands behind it is read as if it stood behind a
command. -/
theorem Accepted.scan_phrase (h : g.Accepted) (hp : p.IsWritten g resolve) {inRun : Bool}
    (hrun : inRun ∨ p.marked) (index : Nat) {rest : List Word}
    (hrest : ∀ word ∈ rest.head?, g.IsOutside word) :
    g.scan resolve false inRun index (p.words g ++ rest) =
      (g.scan resolve false true (index + 1) rest).consCommand (p.command index) := by
  have hcandidate := candidate?_head hp hrun
  rw [Phrase.words, List.cons_append]
  rcases p.clause.words_cases with habsent | ⟨word, hword⟩
  · have hnone : g.clause? (p.clause.words ++ rest) = none := by
      rw [habsent]
      exact clause?_of_outside hrest
    rw [scan_without_clause hcandidate hp.resolved hnone]
    simp [habsent, Phrase.command, Clause.timing, Clause.words]
  · have hsome : g.clause? (p.clause.words ++ rest) = some (word, rest) := by
      rw [hword]
      exact h.clause?_word hp.clause hword hrest
    have htiming := h.parseTiming hp.clause hword
    rw [scan_with_clause hcandidate hp.resolved hsome, htiming]
    rfl

/-! ### Whole messages -/

theorem Accepted.scan_phrases (h : g.Accepted) {phrases : List (Phrase α)}
    (hphrases : ∀ p ∈ phrases, p.IsWritten g resolve) (inRun : Bool)
    (hrun : inRun ∨ ∀ p ∈ phrases.head?, p.marked) (index : Nat) :
    g.scan resolve false inRun index (phrases.flatMap (Phrase.words g)) =
      { commands := phrases.mapIdx fun i p => p.command (index + i) } := by
  induction phrases generalizing inRun index with
  | nil => simp [scan]
  | cons p phrases ih =>
      have hrest : ∀ word ∈ (phrases.flatMap (Phrase.words g)).head?, g.IsOutside word := by
        intro word hword
        cases phrases with
        | nil => cases hword
        | cons next phrases =>
            cases hword
            exact (hphrases next (by simp)).outside
      have hmarked := hrun.imp_right fun hmarked => hmarked p rfl
      have hfirst := h.scan_phrase (hphrases p (by simp)) hmarked index hrest
      have hbehind := ih (fun q hq => hphrases q (List.mem_cons_of_mem _ hq)) true (.inl rfl)
        (index + 1)
      rw [List.flatMap_cons, hfirst, hbehind]
      simp [Message.consCommand, List.mapIdx_cons, Nat.add_assoc, Nat.add_comm 1]

/-! ### Words without white space -/

theorem isWord_of_isMillis {n : Word} (hn : n.IsMillis) : Text.IsWord n :=
  ⟨hn.ne_nil, fun c hc => Text.isBlank_of_isDigit (hn.all c hc)⟩

theorem Accepted.isWord_head (h : g.Accepted) (hp : p.IsWritten g resolve) :
    Text.IsWord (p.head g) := by
  unfold Phrase.head
  split
  · constructor
    · simp [hp.word.ne_nil]
    · intro c hc
      rcases List.mem_append.mp hc with hmarker | hword
      · exact (h.marker.plain c hmarker).1
      · exact hp.word.solid c hword
  · exact hp.word

theorem Accepted.isWord_clause (h : g.Accepted) {clause : Clause} (hclause : clause.IsWritten g) :
    ∀ word ∈ clause.words, Text.IsWord word := by
  cases clause with
  | absent => simp [Clause.words]
  | duration n => simpa [Clause.words] using isWord_of_isMillis hclause
  | delay d separator =>
      obtain ⟨hd, hseparator⟩ := hclause
      have hsolid := fun c hc => ((h.separators separator hseparator).plain c hc).1
      simpa [Clause.words] using (isWord_of_isMillis hd).append hsolid
  | both d separator n =>
      obtain ⟨hd, hseparator, hn⟩ := hclause
      have hsolid := fun c hc => ((h.separators separator hseparator).plain c hc).1
      have hword := ((isWord_of_isMillis hd).append hsolid).append (isWord_of_isMillis hn).solid
      simpa [Clause.words] using hword

theorem Accepted.isWord_words (h : g.Accepted) (hp : p.IsWritten g resolve) :
    ∀ word ∈ p.words g, Text.IsWord word := by
  intro word hword
  rcases List.mem_cons.mp hword with rfl | hclause
  · exact h.isWord_head hp
  · exact h.isWord_clause hp.clause word hclause

/-- A marked word alone is a command, whatever it could be taken for without the marker. -/
theorem Accepted.parse?_marked (h : g.Accepted) {word : String} (hword : Text.IsWord word.toList)
    {meaning : α} (hresolve : resolve (Text.lower word) = some meaning) :
    g.parse? resolve (g.marker ++ word) =
      some { commands := [{ index := 0, word := Text.lower word, meaning, timing := {} }] } := by
  have htext : Text.Spaced [g.marker.toList ++ word.toList] (g.marker ++ word).toList := by
    have hspaced : Text.Spaced [g.marker.toList ++ word.toList]
        (g.marker.toList ++ word.toList ++ []) := .word (by simp) .nil
    rw [List.append_nil] at hspaced
    rwa [String.toList_append]
  have hhead : Text.IsWord (g.marker.toList ++ word.toList) :=
    Text.IsWord.append ⟨h.marker.ne_nil, fun c hc => (h.marker.plain c hc).1⟩ hword.solid
  have hwords : Text.words (g.marker ++ word) = [g.marker.toList ++ word.toList] :=
    Text.words_of_spaced htext fun _ hmem => List.mem_singleton.mp hmem ▸ hhead
  have hmarked := marked?_append g hword.ne_nil
  have hcommand : g.isCommand (g.marker ++ word) := by
    rw [isCommand, hwords, List.any_cons, hmarked]
    rfl
  have hcandidate : g.candidate? false (g.marker.toList ++ word.toList) = some word.toList := by
    rw [candidate?, hmarked]
  rw [← String.ofList_toList (s := word)] at hresolve
  rw [parse?, if_pos hcommand, hwords, scan_without_clause hcandidate hresolve rfl, scan,
    String.ofList_toList]
  rfl

/-- A message that is written command by command is read back as these commands, and nothing in it is
unreadable or unknown. -/
theorem parse?_of_written {g : Grammar} (hg : g.fault? = none) {resolve : String → Option α}
    {first : Phrase α} {others : List (Phrase α)} (hmarked : first.marked)
    (hphrases : ∀ p ∈ first :: others, p.IsWritten g resolve) {text : String}
    (htext : Text.Spaced ((first :: others).flatMap (Phrase.words g)) text.toList) :
    g.parse? resolve text = some { commands := (first :: others).mapIdx Phrase.command } := by
  have h := accepted_of_fault?_eq_none hg
  have hwords : Text.words text = (first :: others).flatMap (Phrase.words g) := by
    refine Text.words_of_spaced htext fun word hword => ?_
    obtain ⟨p, hp, hmem⟩ := List.mem_flatMap.mp hword
    exact h.isWord_words (hphrases p hp) word hmem
  have hcommand : g.isCommand text := by
    rw [isCommand, hwords, List.any_eq_true]
    refine ⟨first.head g, by simp [Phrase.words], ?_⟩
    have hword := (hphrases first (List.mem_cons_self ..)).word.ne_nil
    rw [Phrase.head, if_pos hmarked, marked?_append g hword]
    rfl
  have hscan := h.scan_phrases hphrases false (.inr (by simpa using hmarked)) 0
  rw [parse?, if_pos hcommand, hwords, hscan]
  simp

/-- A marked command in mixed case that holds its key for half a second. -/
def phraseUp : Phrase Nat := ⟨['U', 'p'], 0, true, .duration ['5', '0', '0']⟩

/-- A command without the marker, with both numbers around a separator of two letters. -/
def phraseLeft : Phrase Nat :=
  ⟨['L', 'E', 'F', 'T'], 1, false, .both ['2', '0'] ['-', '>'] ['3', '0']⟩

theorem parse?_of_written_pair :
    ({} : Grammar).parse? (fun word => ["up", "left"].idxOf? word) "+Up 500  LEFT 20->30\n" =
      some { commands := [
        { index := 0, word := "up", meaning := 0, timing := { duration := some 500 } },
        { index := 1, word := "left", meaning := 1
          timing := { delay := 20, duration := some 30 } }] } := by
  have hup : phraseUp.IsWritten {} fun word => ["up", "left"].idxOf? word :=
    ⟨by decide, by decide, by decide, ⟨by decide, by decide⟩, ⟨by decide, by decide, by decide⟩⟩
  have hleft : phraseLeft.IsWritten {} fun word => ["up", "left"].idxOf? word :=
    ⟨by decide, by decide, by decide,
      ⟨⟨by decide, by decide⟩, by decide, ⟨by decide, by decide⟩⟩,
      ⟨by decide, by decide, by decide⟩⟩
  have hphrases : ∀ p ∈ [phraseUp, phraseLeft],
      p.IsWritten {} fun word => ["up", "left"].idxOf? word := by
    simp [hup, hleft]
  have htext : Text.Spaced ([phraseUp, phraseLeft].flatMap (Phrase.words {}))
      "+Up 500  LEFT 20->30\n".toList := by
    refine .word ?_ <| .blank rfl <| .word ?_ <| .blank rfl <| .blank rfl <|
      .word ?_ <| .blank rfl <| .word ?_ <| .blank rfl .nil
    all_goals
      rintro c ⟨⟩
      rfl
  have hread := parse?_of_written (by decide) rfl hphrases htext
  rw [hread]
  decide

end Grammar

end CrowdPad
