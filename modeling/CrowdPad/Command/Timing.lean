import CrowdPad.Command.Grammar

/-! Timing clauses: a duration, a delay followed by a separator, or both around one separator. The
separator is the longest one that stands where the first one begins. -/

namespace CrowdPad

/-- When a command starts, counted from the reference time of its message, and how long it holds its
key; without a duration the verb has the say. -/
structure Timing where
  delay : Int := 0
  duration : Option Int := none
deriving Repr, DecidableEq, Inhabited

/-- Why a timing clause cannot be read. -/
inductive TimingFault where
  | negative
  | notAnInteger
  | overflow
  | missingDelay
  | doubledSeparator
deriving Repr, DecidableEq

def TimingFault.message : TimingFault → String
  | .negative => "negative value"
  | .notAnInteger => "not an integer"
  | .overflow => "value out of range"
  | .missingDelay => "missing delay before separator"
  | .doubledSeparator => "doubled separator"

def TimingFault.name : TimingFault → String
  | .negative => "negative"
  | .notAnInteger => "not_an_integer"
  | .overflow => "overflow"
  | .missingDelay => "missing_delay"
  | .doubledSeparator => "doubled_separator"

/-- A word of a message. -/
abbrev Word := List Char

namespace Word

/-- Whether a word can only be meant as timing: a digit leads it, or a minus sign and a digit. -/
def startsLikeTiming : Word → Bool
  | '-' :: c :: _ => Text.isDigit c
  | c :: _ => Text.isDigit c
  | [] => false

/-- The number of milliseconds that a word stands for. -/
def millis (word : Word) : Except TimingFault Int :=
  if word.head? = some '-' then .error .negative
  else if !Text.isDigits word then .error .notAnInteger
  else
    let n := Text.digitsValue word
    if n < UInt32.size then .ok n else .error .overflow

/-- The longest of the separators that a text begins with. -/
def leadingSeparator? (separators : List Word) (cs : Word) : Option Word :=
  separators.foldl (fun best s =>
    if s.isPrefixOf cs && (best.getD []).length ≤ s.length then some s else best) none

/-- What stands before and behind the first separator. -/
def splitSeparator? (separators : List Word) : Word → Option (Word × Word)
  | [] => none
  | c :: cs =>
    match leadingSeparator? separators (c :: cs) with
    | some s => some ([], (c :: cs).drop s.length)
    | none => (splitSeparator? separators cs).map fun (before, behind) => (c :: before, behind)

end Word

namespace Grammar

def separatorWords (g : Grammar) : List Word := g.separators.map String.toList

/-- Reads a timing clause written as one word. -/
def parseTiming (g : Grammar) (clause : Word) : Except TimingFault Timing :=
  match Word.splitSeparator? g.separatorWords clause with
  | none => do return { duration := some (← clause.millis) }
  | some (before, behind) =>
    if before.isEmpty then .error .missingDelay
    else do
      let delay ← before.millis
      if behind.isEmpty then return { delay }
      if g.separatorWords.any fun s => s.isPrefixOf behind then throw .doubledSeparator
      return { delay, duration := some (← behind.millis) }

def isSeparator (g : Grammar) (word : Word) : Bool := g.separatorWords.contains word

/-- Whether a separator ends a word that holds more than it. -/
def endsInSeparator (g : Grammar) (word : Word) : Bool :=
  g.separatorWords.any fun s => s.length < word.length && s.isSuffixOf word

/-- Whether a word is a separator followed by digits alone. -/
def isSeparatedDigits (g : Grammar) (word : Word) : Bool :=
  g.separatorWords.any fun s => (Text.dropStart? s word).any Text.isDigits

/-- The timing clause at the head of the words, put together from up to three of them, and the words
behind it. A clause parted at its separator is read as if it were written in one word. -/
def clause? (g : Grammar) : List Word → Option (Word × List Word)
  | [] => none
  | first :: rest =>
    if !first.startsLikeTiming then none
    else if g.endsInSeparator first then
      match rest with
      | next :: rest =>
        if Text.isDigits next then some (first ++ next, rest) else some (first, next :: rest)
      | [] => some (first, [])
    else if Text.isDigits first then
      match rest with
      | next :: rest =>
        if g.isSeparator next then
          match rest with
          | after :: rest =>
            if Text.isDigits after then some (first ++ next ++ after, rest)
            else some (first ++ next, after :: rest)
          | [] => some (first ++ next, [])
        else if g.isSeparatedDigits next then some (first ++ next, rest)
        else some (first, next :: rest)
      | [] => some (first, [])
    else some (first, rest)

theorem clause?_length {g : Grammar} {words rest : List Word} {clause : Word}
    (h : g.clause? words = some (clause, rest)) : rest.length < words.length := by
  unfold clause? at h
  grind

end Grammar

end CrowdPad
