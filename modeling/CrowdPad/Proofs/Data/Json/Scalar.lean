import CrowdPad.Data.Json.Printer
import CrowdPad.Data.Json.Reader
import Mathlib.Tactic.SplitIfs

/-! Integers and texts as JSON and back. An integer is read back from its digits as long as nothing
behind them could belong to a number; a text is read back from between its quotation marks, any
character of it included. -/

namespace CrowdPad.Json

/-! ### Digits -/

theorem natChars_eq (n : Nat) : natChars n = Nat.toDigits 10 n := by
  rw [natChars, Nat.toString_eq_ofList_toDigits, String.toList_ofList]

theorem digitsNat_natChars (n : Nat) : digitsNat (natChars n) = n := by
  have hvalue : Nat.ofDigitChars 10 (Nat.toDigits 10 n) 0 = n := Nat.ofDigitChars_ten_toDigits
  rwa [natChars_eq, digitsNat, ← Nat.ofDigitChars_eq_foldl]

/-- What the reader takes for a digit. -/
def IsDigit (c : Char) : Prop := '0' ≤ c ∧ c ≤ '9'

instance : DecidablePred IsDigit := fun c => inferInstanceAs (Decidable ('0' ≤ c ∧ c ≤ '9'))

theorem IsDigit.ne {c d : Char} (hc : IsDigit c) (hd : ¬IsDigit d) : c ≠ d :=
  fun h => hd (h ▸ hc)

theorem isDigit_of_mem_natChars {n : Nat} {c : Char} (hc : c ∈ natChars n) : IsDigit c := by
  rw [natChars_eq] at hc
  simpa [Char.isDigit, IsDigit, Char.le_def] using
    Nat.isDigit_of_mem_toDigits (by decide) (by decide) hc

theorem natChars_ne_nil (n : Nat) : natChars n ≠ [] := by
  rw [natChars_eq]
  exact Nat.toDigits_ne_nil

/-- Only zero is written with a leading zero. -/
theorem eq_nil_of_natChars {n : Nat} {more : List Char} (h : natChars n = '0' :: more) :
    more = [] := by
  induction n using Nat.strongRecOn generalizing more with
  | ind n ih =>
      by_cases hsmall : n < 10
      · rw [natChars_eq, Nat.toDigits_of_lt_base hsmall] at h
        exact (List.cons.inj h).2.symm
      · have hsplit : natChars n = natChars (n / 10) ++ [(n % 10).digitChar] := by
          rw [natChars_eq, natChars_eq, Nat.toDigits_of_base_le (by decide) (Nat.not_lt.mp hsmall)]
        obtain ⟨d, front, hfront⟩ := List.exists_cons_of_ne_nil (natChars_ne_nil (n / 10))
        rw [hsplit, hfront, List.cons_append] at h
        obtain ⟨rfl, -⟩ := List.cons.inj h
        have hzero : digitsNat (natChars (n / 10)) = 0 := by
          rw [hfront, ih (n / 10) (by omega) hfront]
          rfl
        rw [digitsNat_natChars] at hzero
        omega

/-! ### Numbers -/

/-- Whether what follows cannot belong to a number. -/
def EndsNumber (rest : Input) : Prop :=
  ∀ c, rest.head? = some (some c) → ¬IsDigit c ∧ c ≠ '.' ∧ c ≠ 'e' ∧ c ≠ 'E'

section EndsNumber

variable {rest : Input} (hrest : EndsNumber rest)

include hrest

theorem readDigits_eq_nil : readDigits rest = ([], rest) := by
  cases rest with
  | nil => rfl
  | cons c rest =>
      cases c with
      | none => rfl
      | some c =>
          have hc := (hrest c rfl).1
          rw [readDigits, if_neg]
          simpa [IsDigit] using hc

theorem readDigits_append {digits : List Char} (hdigits : ∀ c ∈ digits, IsDigit c) :
    readDigits (digits.map some ++ rest) = (digits, rest) := by
  induction digits with
  | nil => exact readDigits_eq_nil hrest
  | cons c digits ih =>
      have hc : IsDigit c := hdigits c (List.mem_cons_self ..)
      rw [List.map_cons, List.cons_append, readDigits, if_pos (by simpa [IsDigit] using hc),
        ih fun d hd => hdigits d (List.mem_cons_of_mem _ hd)]

theorem readWhole_natChars (n : Nat) :
    readWhole ((natChars n).map some ++ rest) = some (natChars n, rest) := by
  have hread := readDigits_append hrest fun c hc => isDigit_of_mem_natChars (n := n) hc
  have hne := natChars_ne_nil n
  unfold readWhole
  split
  · rename_i hnil
    rw [hread] at hnil
    exact absurd (Prod.mk.inj hnil).1 hne
  · rename_i d more _ hzero
    rw [hread] at hzero
    exact absurd (eq_nil_of_natChars (Prod.mk.inj hzero).1) (List.cons_ne_nil d more)
  · rename_i hother
    rw [← hother, hread]

theorem readFraction_eq_none : readFraction rest = some (none, rest) := by
  unfold readFraction
  split
  · exact absurd rfl (hrest '.' rfl).2.1
  · rfl

theorem readExponent_eq_none : readExponent rest = some (none, rest) := by
  unfold readExponent
  split
  · rename_i e _
    have he := (hrest e rfl).2.2
    rw [if_neg (by simpa using he)]
  · rfl

theorem readNumber_natChars (n : Nat) :
    readNumber ((natChars n).map some ++ rest) = some (.int n, rest) := by
  have hunsigned : ∀ tail, (natChars n).map some ++ rest ≠ some '-' :: tail := by
    intro tail hsigned
    obtain ⟨d, more, hchars⟩ := List.exists_cons_of_ne_nil (natChars_ne_nil n)
    rw [hchars, List.map_cons, List.cons_append] at hsigned
    obtain rfl : d = '-' := Option.some.inj (List.cons.inj hsigned).1
    have hdigit : IsDigit '-' := isDigit_of_mem_natChars (n := n) (hchars ▸ List.mem_cons_self ..)
    exact absurd hdigit (by decide)
  rw [readNumber]
  · simp only [readWhole_natChars hrest, readFraction_eq_none hrest, readExponent_eq_none hrest,
      digitsNat_natChars]
    rfl
  · exact hunsigned

/-- An integer is read back, whatever stands behind it. -/
theorem readNumber_intChars (n : Int) :
    readNumber ((intChars n).map some ++ rest) = some (.int n, rest) := by
  cases n with
  | ofNat n => exact readNumber_natChars hrest n
  | negSucc n =>
      have hwhole := readWhole_natChars hrest (n + 1)
      simp only [intChars, List.map_cons, List.cons_append, readNumber, hwhole,
        readFraction_eq_none hrest, readExponent_eq_none hrest, digitsNat_natChars]
      rfl

end EndsNumber

/-! ### Texts -/

theorem hexValue?_hexDigit {n : Nat} (h : n < 16) : hexValue? (some (hexDigit n)) = some n := by
  revert n
  decide

theorem hexValue4?_hexDigits {n : Nat} (h : n < 256) :
    hexValue4? (some '0') (some '0') (some (hexDigit (n / 16))) (some (hexDigit (n % 16))) =
      some n := by
  have hzero : hexValue? (some '0') = some 0 := rfl
  have hhigh : hexValue? (some (hexDigit (n / 16))) = some (n / 16) := hexValue?_hexDigit (by omega)
  have hlow : hexValue? (some (hexDigit (n % 16))) = some (n % 16) := hexValue?_hexDigit (by omega)
  simp only [hexValue4?, hzero, hhigh, hlow, Option.bind_eq_bind, Option.bind_some, Option.pure_def]
  congr 1
  omega

section ReadText

variable (read : List Char) (rest : Input)

theorem readText_quote :
    readText (some read) (some '"' :: rest) = some (some (String.ofList read.reverse), rest) := by
  unfold readText
  rfl

theorem readText_plain {c : Char} (hquote : c ≠ '"') (hslash : c ≠ '\\') (hcontrol : ¬c.toNat < 0x20) :
    readText (some read) (some c :: rest) = readText (some (c :: read)) rest := by
  rw [readText.eq_def]
  simp only [if_neg hquote, if_neg hslash, if_neg hcontrol, Option.map_some]

theorem readText_short {e c : Char} (h : shortEscape? e = some c) :
    readText (some read) (some '\\' :: some e :: rest) = readText (some (c :: read)) rest := by
  have hne : e ≠ 'u' := by
    rintro rfl
    cases h
  rw [readText.eq_def]
  simp only
  rw [if_neg (by decide), if_pos trivial]
  split
  · rename_i hunicode
    exact absurd (Option.some.inj (List.cons.inj hunicode).1) hne
  · rename_i e' rest' _ hshort
    obtain ⟨rfl, rfl⟩ : e = e' ∧ rest = rest' := by simpa using hshort
    rw [h]
    rfl
  · rename_i hother
    exact absurd rfl (hother e rest)

theorem readText_control {c : Char} (hcontrol : c.toNat < 0x20) :
    readText (some read) (some '\\' :: some 'u' :: some '0' :: some '0' ::
      some (hexDigit (c.toNat / 16)) :: some (hexDigit (c.toNat % 16)) :: rest) =
        readText (some (c :: read)) rest := by
  have hhigh : isHighSurrogate c.toNat = false := by
    simp only [isHighSurrogate, Bool.and_eq_false_iff, decide_eq_false_iff_not]
    omega
  have hlow : isLowSurrogate c.toNat = false := by
    simp only [isLowSurrogate, Bool.and_eq_false_iff, decide_eq_false_iff_not]
    omega
  rw [readText.eq_def]
  simp [hexValue4?_hexDigits (n := c.toNat) (by omega), hhigh, hlow]

/-- An escaped character is read as the character. -/
theorem readText_escape (c : Char) :
    readText (some read) ((escape c).map some ++ rest) = readText (some (c :: read)) rest := by
  unfold escape
  split_ifs with hquote hslash hback hfeed hline hreturn htab hcontrol
  · rw [hquote]
    exact readText_short read rest rfl
  · rw [hslash]
    exact readText_short read rest rfl
  · rw [hback]
    exact readText_short read rest rfl
  · rw [hfeed]
    exact readText_short read rest rfl
  · rw [hline]
    exact readText_short read rest rfl
  · rw [hreturn]
    exact readText_short read rest rfl
  · rw [htab]
    exact readText_short read rest rfl
  · exact readText_control read rest hcontrol
  · exact readText_plain read rest hquote hslash hcontrol

theorem readText_flatMap_escape (cs : List Char) :
    readText (some read) ((cs.flatMap escape).map some ++ some '"' :: rest) =
      some (some (String.ofList (read.reverse ++ cs)), rest) := by
  induction cs generalizing read with
  | nil =>
      rw [List.append_nil]
      exact readText_quote read rest
  | cons c cs ih =>
      rw [List.flatMap_cons, List.map_append, List.append_assoc, readText_escape, ih,
        List.reverse_cons, List.append_assoc]
      rfl

end ReadText

theorem quoteChars_append (s : String) (rest : Input) : (quoteChars s).map some ++ rest =
    some '"' :: ((s.toList.flatMap escape).map some ++ some '"' :: rest) := by
  simp [quoteChars]

/-- A text is read back from between its quotation marks, whatever stands behind it. -/
theorem readText_escaped (s : String) (rest : Input) :
    readText (some []) ((s.toList.flatMap escape).map some ++ some '"' :: rest) =
      some (some s, rest) := by
  rw [readText_flatMap_escape, List.reverse_nil, List.nil_append, String.ofList_toList]

end CrowdPad.Json
