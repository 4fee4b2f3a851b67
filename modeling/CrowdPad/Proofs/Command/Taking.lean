import CrowdPad.Proofs.Command.Clause

/-! The words that a timing clause takes. A clause is put together from one to three words, and what it
takes depends on the word behind it and on nothing beyond that word. -/

namespace CrowdPad.Grammar

/-- The words that a clause takes, none if there is no clause, where `next` is the word behind them. -/
inductive Takes (g : Grammar) : List Word → Option Word → Prop where
  /-- What comes next does not look like timing. -/
  | absent {next : Option Word} (hnext : ∀ word ∈ next, word.startsLikeTiming = false) :
      Takes g [] next
  /-- A word with more than a number in it, not open at its end. -/
  | solid {first : Word} {next : Option Word} (htiming : first.startsLikeTiming)
      (hends : g.endsInSeparator first = false) (hdigits : Text.isDigits first = false) :
      Takes g [first] next
  /-- A word that a separator ends, with no number behind it. -/
  | opened {first : Word} {next : Option Word} (htiming : first.startsLikeTiming)
      (hends : g.endsInSeparator first) (hnext : ∀ word ∈ next, Text.isDigits word = false) :
      Takes g [first] next
  /-- A word that a separator ends, and the number behind it. -/
  | completed {first n : Word} {next : Option Word} (htiming : first.startsLikeTiming)
      (hends : g.endsInSeparator first) (hn : Text.isDigits n) : Takes g [first, n] next
  /-- A number, with no separator behind it. -/
  | number {first : Word} {next : Option Word} (hdigits : Text.isDigits first)
      (hends : g.endsInSeparator first = false) (hseparator : ∀ word ∈ next, g.isSeparator word = false)
      (hseparated : ∀ word ∈ next, g.isSeparatedDigits word = false) : Takes g [first] next
  /-- A number, and a separator with a number in one word. -/
  | joined {first second : Word} {next : Option Word} (hdigits : Text.isDigits first)
      (hends : g.endsInSeparator first = false) (hseparator : g.isSeparator second = false)
      (hseparated : g.isSeparatedDigits second) : Takes g [first, second] next
  /-- A number and a separator, with no number behind them. -/
  | parted {first separator : Word} {next : Option Word} (hdigits : Text.isDigits first)
      (hends : g.endsInSeparator first = false) (hseparator : g.isSeparator separator)
      (hnext : ∀ word ∈ next, Text.isDigits word = false) : Takes g [first, separator] next
  /-- A number, a separator and a number, each a word of its own. -/
  | spread {first separator n : Word} {next : Option Word} (hdigits : Text.isDigits first)
      (hends : g.endsInSeparator first = false) (hseparator : g.isSeparator separator)
      (hn : Text.isDigits n) : Takes g [first, separator, n] next

variable {g : Grammar} {taken : List Word} {next : Option Word}

/-- The clause that is found at the head of some words is made of the words that it takes. -/
theorem clause?_of_takes {rest : List Word} (h : g.Takes taken rest.head?) :
    g.clause? (taken ++ rest) = if taken.isEmpty then none else some (taken.flatten, rest) := by
  cases h with
  | absent hnext =>
      cases rest with
      | nil => rfl
      | cons word rest => simp [clause?, hnext word rfl]
  | solid htiming hends hdigits => simp [clause?, htiming, hends, hdigits]
  | opened htiming hends hnext =>
      cases rest with
      | nil => simp [clause?, htiming, hends]
      | cons word rest => simp [clause?, htiming, hends, hnext word rfl]
  | completed htiming hends hn => simp [clause?, htiming, hends, hn]
  | number hdigits hends hseparator hseparated =>
      have htiming := Word.startsLikeTiming_of_isDigits hdigits
      cases rest with
      | nil => simp [clause?, htiming, hends, hdigits]
      | cons word rest =>
          simp [clause?, htiming, hends, hdigits, hseparator word rfl, hseparated word rfl]
  | joined hdigits hends hseparator hseparated =>
      have htiming := Word.startsLikeTiming_of_isDigits hdigits
      simp [clause?, htiming, hends, hdigits, hseparator, hseparated]
  | parted hdigits hends hseparator hnext =>
      have htiming := Word.startsLikeTiming_of_isDigits hdigits
      cases rest with
      | nil => simp [clause?, htiming, hends, hdigits, hseparator]
      | cons word rest => simp [clause?, htiming, hends, hdigits, hseparator, hnext word rfl]
  | spread hdigits hends hseparator hn =>
      have htiming := Word.startsLikeTiming_of_isDigits hdigits
      simp [clause?, htiming, hends, hdigits, hseparator, hn]

/-- Behind a number, a clause takes in a separator with what belongs to it. -/
theorem exists_takes_number {first : Word} (hdigits : Text.isDigits first)
    (hends : g.endsInSeparator first = false) (words : List Word) :
    ∃ taken rest, first :: words = taken ++ rest ∧ g.Takes taken rest.head? := by
  cases words with
  | nil => exact ⟨[first], [], rfl, .number hdigits hends nofun nofun⟩
  | cons second words =>
      cases hseparator : g.isSeparator second with
      | true =>
          cases words with
          | nil => exact ⟨[first, second], [], rfl, .parted hdigits hends hseparator nofun⟩
          | cons n words =>
              cases hn : Text.isDigits n with
              | true => exact ⟨[first, second, n], words, rfl, .spread hdigits hends hseparator hn⟩
              | false =>
                  refine ⟨[first, second], n :: words, rfl, .parted hdigits hends hseparator ?_⟩
                  rintro word ⟨⟩
                  exact hn
      | false =>
          cases hseparated : g.isSeparatedDigits second with
          | true => exact ⟨[first, second], words, rfl, .joined hdigits hends hseparator hseparated⟩
          | false =>
              refine ⟨[first], second :: words, rfl, .number hdigits hends ?_ ?_⟩
              · rintro word ⟨⟩
                exact hseparator
              · rintro word ⟨⟩
                exact hseparated

/-- Some words at the head are the ones that a clause there takes. -/
theorem exists_takes (g : Grammar) (words : List Word) :
    ∃ taken rest, words = taken ++ rest ∧ g.Takes taken rest.head? := by
  cases words with
  | nil => exact ⟨[], [], rfl, .absent nofun⟩
  | cons first words =>
      cases htiming : first.startsLikeTiming with
      | false =>
          refine ⟨[], first :: words, rfl, .absent ?_⟩
          rintro word ⟨⟩
          exact htiming
      | true =>
          cases hends : g.endsInSeparator first with
          | true =>
              cases words with
              | nil => exact ⟨[first], [], rfl, .opened htiming hends nofun⟩
              | cons n words =>
                  cases hn : Text.isDigits n with
                  | true => exact ⟨[first, n], words, rfl, .completed htiming hends hn⟩
                  | false =>
                      refine ⟨[first], n :: words, rfl, .opened htiming hends ?_⟩
                      rintro word ⟨⟩
                      exact hn
          | false =>
              cases hdigits : Text.isDigits first with
              | true => exact exists_takes_number hdigits hends words
              | false => exact ⟨[first], words, rfl, .solid htiming hends hdigits⟩

/-- What a clause begins with looks like timing. -/
theorem Takes.startsLikeTiming {first : Word} (h : g.Takes (first :: taken) next) :
    first.startsLikeTiming := by
  cases h with
  | solid htiming | opened htiming | completed htiming => exact htiming
  | number hdigits | joined hdigits | parted hdigits | spread hdigits =>
      exact Word.startsLikeTiming_of_isDigits hdigits

/-- A word that can stand in no clause is, to the clause before it, as if nothing came behind. -/
theorem Takes.outside {word : Word} (hword : g.IsOutside word) (h : g.Takes taken none) :
    g.Takes taken (some word) := by
  cases h with
  | absent =>
      refine .absent ?_
      rintro other ⟨⟩
      exact hword.timing
  | solid htiming hends hdigits => exact .solid htiming hends hdigits
  | opened htiming hends =>
      refine .opened htiming hends ?_
      rintro other ⟨⟩
      exact hword.isDigits
  | completed htiming hends hn => exact .completed htiming hends hn
  | number hdigits hends =>
      refine .number hdigits hends ?_ ?_
      · rintro other ⟨⟩
        exact hword.separator
      · rintro other ⟨⟩
        exact hword.separated
  | joined hdigits hends hseparator hseparated => exact .joined hdigits hends hseparator hseparated
  | parted hdigits hends hseparator =>
      refine .parted hdigits hends hseparator ?_
      rintro other ⟨⟩
      exact hword.isDigits
  | spread hdigits hends hseparator hn => exact .spread hdigits hends hseparator hn

end CrowdPad.Grammar
