import CrowdPad.Command.Message
import CrowdPad.Proofs.Data.Result

/-! What a scan finds. The word of every command means what the command says, its times are numbers
of 32 bits, and a text that starts with a marked word and holds no unknown word reads the same as a
message and as one run. -/

namespace CrowdPad

/-! ### Times -/

/-- Whether the times of a clause are numbers of 32 bits. -/
structure Timing.Fits (t : Timing) : Prop where
  delay : 0 ≤ t.delay ∧ t.delay < UInt32.size
  duration : ∀ ms ∈ t.duration, 0 ≤ ms ∧ ms < UInt32.size

theorem Timing.fits_empty : Timing.Fits {} := ⟨⟨by decide, by decide⟩, nofun⟩

theorem Word.fits_of_millis {word : Word} {ms : Int} (h : word.millis = .ok ms) :
    0 ≤ ms ∧ ms < UInt32.size := by
  unfold millis at h
  split at h
  · cases h
  · split at h
    · cases h
    · simp only at h
      split at h
      · rename_i hfits
        cases h
        exact ⟨Int.natCast_nonneg _, Int.ofNat_lt.mpr hfits⟩
      · cases h

theorem Grammar.fits_of_parseTiming {g : Grammar} {clause : Word} {t : Timing}
    (h : g.parseTiming clause = .ok t) : t.Fits := by
  unfold parseTiming at h
  split at h
  · obtain ⟨ms, hms, h⟩ := exists_of_bind_eq_ok h
    cases h
    exact ⟨Timing.fits_empty.delay, fun _ heq => Option.some.inj heq ▸ Word.fits_of_millis hms⟩
  · split at h
    · cases h
    · obtain ⟨delay, hdelay, h⟩ := exists_of_bind_eq_ok h
      have hfits := Word.fits_of_millis hdelay
      split at h
      · cases h
        exact ⟨hfits, nofun⟩
      · simp only at h
        split at h
        · cases h
        · obtain ⟨ms, hms, h⟩ := exists_of_bind_eq_ok h
          cases h
          exact ⟨hfits, fun _ heq => Option.some.inj heq ▸ Word.fits_of_millis hms⟩

namespace Grammar

variable {α : Type} {g : Grammar} {resolve resolve' : String → Option α} {always inRun : Bool}
  {index : Nat} {words : List Word}

/-! ### Words with a meaning -/

section

variable {word candidate : Word} {rest : List Word} {meaning : α}
  (hcandidate : g.candidate? inRun word = some candidate)
  (hresolve : resolve (Text.lower (String.ofList candidate)) = some meaning)

include hcandidate hresolve

theorem scan_without_clause (hclause : g.clause? rest = none) :
    g.scan resolve always inRun index (word :: rest) =
      (g.scan resolve always true (index + 1) rest).consCommand
        { index, word := Text.lower (String.ofList candidate), meaning, timing := {} } := by
  rw [scan, hcandidate]
  simp only [hresolve]
  split
  · rfl
  · rename_i hsome
    rw [hclause] at hsome
    cases hsome

theorem scan_with_clause {clause : Word} {rest' : List Word}
    (hclause : g.clause? rest = some (clause, rest')) :
    g.scan resolve always inRun index (word :: rest) =
      match g.parseTiming clause with
      | .ok timing =>
        (g.scan resolve always true (index + 1) rest').consCommand
          { index, word := Text.lower (String.ofList candidate), meaning, timing }
      | .error fault =>
        (g.scan resolve always true (index + 1) rest').consMalformed
          { index, word := Text.lower (String.ofList candidate), clause := String.ofList clause,
            fault } := by
  rw [scan, hcandidate]
  simp only [hresolve]
  split
  · rename_i hnone
    rw [hclause] at hnone
    cases hnone
  · rename_i hsome
    rw [hclause] at hsome
    cases hsome
    rfl

end

/-! ### Commands -/

/-- Every command that a scan finds has the meaning of its word, and times that fit. -/
theorem mem_commands_scan {command : Command α}
    (h : command ∈ (g.scan resolve always inRun index words).commands) :
    resolve command.word = some command.meaning ∧ command.timing.Fits := by
  fun_induction Grammar.scan g resolve always inRun index words with
  | case1 => exact absurd h List.not_mem_nil
  | case2 inRun index word rest hcandidate ih => exact ih h
  | case3 inRun index word rest candidate hcandidate lowered hresolve ih => exact ih h
  | case4 inRun index word rest candidate hcandidate lowered meaning hresolve hclause ih =>
      rcases List.mem_cons.mp h with rfl | hrest
      · exact ⟨hresolve, Timing.fits_empty⟩
      · exact ih hrest
  | case5 inRun index word rest candidate hcandidate lowered meaning hresolve clause rest' hclause
      timing htiming ih =>
      rcases List.mem_cons.mp h with rfl | hrest
      · exact ⟨hresolve, fits_of_parseTiming htiming⟩
      · exact ih hrest
  | case6 inRun index word rest candidate hcandidate lowered meaning hresolve clause rest' hclause
      fault htiming ih => exact ih h

/-! ### Runs -/

/-- A marked word starts a run itself. -/
theorem scan_of_marked {first : Word} (hmarked : (g.marked? first).isSome) :
    g.scan resolve always inRun index (first :: words) =
      g.scan resolve always true index (first :: words) := by
  obtain ⟨rest, hrest⟩ := Option.isSome_iff_exists.mp hmarked
  rw [scan, scan]
  simp only [candidate?, hrest]

/-- A run without unknown words goes on to its end, and more words with a meaning do not change it. -/
theorem scan_of_known (hmore : ∀ word meaning, resolve word = some meaning →
      resolve' word = some meaning) (hrun : inRun = true)
    (hknown : (g.scan resolve true inRun index words).unknown = []) :
    g.scan resolve' always inRun index words = g.scan resolve true inRun index words := by
  fun_induction Grammar.scan g resolve true inRun index words with
  | case1 => rw [scan]
  | case2 inRun index word rest hcandidate ih =>
      rw [scan, hcandidate]
      exact ih hrun hknown
  | case3 inRun index word rest candidate hcandidate lowered hresolve ih =>
      exact absurd hknown (List.cons_ne_nil _ _)
  | case4 inRun index word rest candidate hcandidate lowered meaning hresolve hclause ih =>
      rw [scan_without_clause hcandidate (hmore lowered meaning hresolve) hclause, ih rfl hknown]
  | case5 inRun index word rest candidate hcandidate lowered meaning hresolve clause rest' hclause
      timing htiming ih =>
      rw [scan_with_clause hcandidate (hmore lowered meaning hresolve) hclause, htiming]
      simp only [ih rfl hknown, lowered]
  | case6 inRun index word rest candidate hcandidate lowered meaning hresolve clause rest' hclause
      fault htiming ih =>
      rw [scan_with_clause hcandidate (hmore lowered meaning hresolve) hclause, htiming]
      simp only [ih rfl hknown, lowered]

end Grammar

end CrowdPad
