import CrowdPad.Proofs.Command.Clause
import CrowdPad.Proofs.Data.Result

/-! Which texts are timing clauses. A text is accepted exactly when it can be written as a clause, and
it can be written as one clause only: what stands before the first separator and what stands behind it
holds digits alone, and no separator holds a digit. -/

namespace CrowdPad

namespace Word

/-! ### Numbers -/

theorem millis_eq_ok {n : Word} {ms : Int} (h : n.millis = .ok ms) :
    n.IsMillis ∧ ms = Text.digitsValue n := by
  unfold millis at h
  split at h
  · cases h
  · split at h
    · cases h
    · rename_i hdigits
      simp only at h
      split at h
      · rename_i hsmall
        cases h
        exact ⟨⟨by simpa using hdigits, hsmall⟩, rfl⟩
      · cases h

/-! ### Separators -/

theorem leadingSeparator?_sound {separators : List Word} {cs separator : Word}
    (h : leadingSeparator? separators cs = some separator) :
    separator ∈ separators ∧ separator <+: cs := by
  rw [leadingSeparator?_eq_foldl] at h
  have hsound : ∀ s ∈ separators.foldl (keepLonger cs) none, s ∈ separators ∧ s <+: cs := by
    refine List.foldlRecOn separators _
      (motive := fun best : Option Word => ∀ s ∈ best, s ∈ separators ∧ s <+: cs) nofun ?_
    intro best hbest s hs
    unfold keepLonger
    split
    · rename_i hlead
      rw [Bool.and_eq_true, List.isPrefixOf_iff_prefix] at hlead
      rintro other ⟨⟩
      exact ⟨hs, hlead.1⟩
    · exact hbest
  exact hsound separator h

/-- A text is parted at one of the separators, and nothing of it is lost. -/
theorem splitSeparator?_sound {separators : List Word} {word before behind : Word}
    (h : splitSeparator? separators word = some (before, behind)) :
    ∃ separator ∈ separators, word = before ++ (separator ++ behind) := by
  induction word generalizing before with
  | nil => cases h
  | cons c cs ih =>
      rw [splitSeparator?] at h
      cases hlead : leadingSeparator? separators (c :: cs) with
      | some separator =>
          obtain ⟨hmem, rest, hrest⟩ := leadingSeparator?_sound hlead
          rw [hlead, ← hrest] at h
          simp only [List.drop_left] at h
          cases h
          exact ⟨separator, hmem, hrest.symm⟩
      | none =>
          rw [hlead] at h
          obtain ⟨⟨front, back⟩, hsplit, heq⟩ := Option.map_eq_some_iff.mp h
          cases heq
          obtain ⟨separator, hmem, hcs⟩ := ih hsplit
          exact ⟨separator, hmem, congrArg (c :: ·) hcs⟩

end Word

/-- What stands before the separator of a clause and what stands behind it. -/
def Clause.parts : Clause → Option (Word × Word)
  | absent => none
  | duration _ => none
  | delay d _ => some (d, [])
  | both d _ n => some (d, n)

namespace Grammar

variable {g : Grammar} {word : Word} {clause : Clause}

/-! ### Readings -/

/-- Whether a text is a clause written out. -/
structure Reads (g : Grammar) (word : Word) (clause : Clause) : Prop where
  written : clause.IsWritten g
  words : clause.words = [word]

/-- A text is parted where it was put together, so that it tells the form of its clause. -/
theorem Accepted.splitSeparator?_of_reads (h : g.Accepted) (hreads : g.Reads word clause) :
    Word.splitSeparator? g.separatorWords word = clause.parts := by
  obtain ⟨hwritten, hwords⟩ := hreads
  cases clause with
  | absent => cases hwords
  | duration n =>
      cases hwords
      exact Word.splitSeparator?_digits h.separators hwritten.all
  | delay d separator =>
      cases hwords
      obtain ⟨hd, hseparator⟩ := hwritten
      have hsplit := Word.splitSeparator?_append h.separators hseparator hd.all (n := [])
        fun _ hc => absurd hc List.not_mem_nil
      rwa [List.append_nil] at hsplit
  | both d separator n =>
      cases hwords
      obtain ⟨hd, hseparator, hn⟩ := hwritten
      rw [List.append_assoc]
      exact Word.splitSeparator?_append h.separators hseparator hd.all hn.all

theorem Accepted.reads_unique (h : g.Accepted) {clause' : Clause} (hreads : g.Reads word clause)
    (hreads' : g.Reads word clause') : clause = clause' := by
  have hparts : clause.parts = clause'.parts := by
    rw [← h.splitSeparator?_of_reads hreads, ← h.splitSeparator?_of_reads hreads']
  have hwords : clause.words = clause'.words := hreads.words.trans hreads'.words.symm
  -- The parts tell the form and the numbers; what is left between them is the separator.
  cases clause with
  | absent => cases hreads.words
  | duration n =>
      cases clause' with
      | absent => cases hreads'.words
      | duration n' => simpa [Clause.words] using hwords
      | delay d' separator' => cases hparts
      | both d' separator' n' => cases hparts
  | delay d separator =>
      cases clause' with
      | absent => cases hreads'.words
      | duration n' => cases hparts
      | delay d' separator' =>
          cases hparts
          simpa [Clause.words] using hwords
      | both d' separator' n' =>
          cases hparts
          exact absurd rfl hreads'.written.2.2.ne_nil
  | both d separator n =>
      cases clause' with
      | absent => cases hreads'.words
      | duration n' => cases hparts
      | delay d' separator' =>
          cases hparts
          exact absurd rfl hreads.written.2.2.ne_nil
      | both d' separator' n' =>
          cases hparts
          simpa [Clause.words] using hwords

/-- What is accepted was written as the clause whose timing comes out. -/
theorem reads_of_parseTiming {timing : Timing} (htiming : g.parseTiming word = .ok timing) :
    ∃ clause, g.Reads word clause ∧ clause.timing = timing := by
  unfold parseTiming at htiming
  split at htiming
  · obtain ⟨ms, hms, htiming⟩ := exists_of_bind_eq_ok htiming
    obtain ⟨hmillis, rfl⟩ := Word.millis_eq_ok hms
    cases htiming
    exact ⟨.duration word, ⟨hmillis, rfl⟩, rfl⟩
  · rename_i before behind hsplit
    obtain ⟨separator, hseparator, rfl⟩ := Word.splitSeparator?_sound hsplit
    split at htiming
    · cases htiming
    · obtain ⟨delay, hdelay, hrest⟩ := exists_of_bind_eq_ok htiming
      obtain ⟨hbefore, rfl⟩ := Word.millis_eq_ok hdelay
      split at hrest
      · rename_i hempty
        obtain rfl := List.isEmpty_iff.mp hempty
        cases hrest
        exact ⟨.delay before separator, ⟨⟨hbefore, hseparator⟩, by simp [Clause.words]⟩, rfl⟩
      · simp only at hrest
        split at hrest
        · cases hrest
        · obtain ⟨ms, hms, hlast⟩ := exists_of_bind_eq_ok hrest
          obtain ⟨hbehind, rfl⟩ := Word.millis_eq_ok hms
          cases hlast
          exact ⟨.both before separator behind,
            ⟨⟨hbefore, hseparator, hbehind⟩, by simp [Clause.words]⟩, rfl⟩

/-- A text is accepted exactly when it is a clause written out, with numbers of 32 bits and any number
of leading zeros; the timing is the one that the clause stands for, and the text is no other clause. -/
theorem parseTiming_exact {g : Grammar} (hg : g.fault? = none) (word : Word) :
    (∀ timing, g.parseTiming word = .ok timing ↔
      ∃ clause, g.Reads word clause ∧ clause.timing = timing) ∧
    ∀ clause clause', g.Reads word clause → g.Reads word clause' → clause = clause' := by
  have h := accepted_of_fault?_eq_none hg
  constructor
  · intro timing
    constructor
    · exact reads_of_parseTiming
    · rintro ⟨clause, hreads, rfl⟩
      exact h.parseTiming hreads.written hreads.words
  · intro clause clause' hreads hreads'
    exact h.reads_unique hreads hreads'

/-- A grammar with separators that begin one another, two of them beyond ASCII. -/
def overlapping : Grammar := { marker := "->", separators := ["->", "->>", "→", "→→"] }

theorem parseTiming_exact_overlapping :
    overlapping.fault? = none ∧
    overlapping.parseTiming "007->>12".toList = .ok { delay := 7, duration := some 12 } ∧
    ∀ clause, overlapping.Reads "007->>12".toList clause →
      clause = .both ['0', '0', '7'] ['-', '>', '>'] ['1', '2'] := by
  have hg : overlapping.fault? = none := by decide
  have hreads : overlapping.Reads "007->>12".toList
      (.both ['0', '0', '7'] ['-', '>', '>'] ['1', '2']) :=
    ⟨⟨⟨by decide, by decide⟩, by decide, ⟨by decide, by decide⟩⟩, by decide⟩
  obtain ⟨hexact, hunique⟩ := parseTiming_exact hg "007->>12".toList
  refine ⟨hg, (hexact _).mpr ⟨_, hreads, by decide⟩, fun clause hclause => ?_⟩
  exact hunique clause _ hclause hreads

end Grammar

end CrowdPad
