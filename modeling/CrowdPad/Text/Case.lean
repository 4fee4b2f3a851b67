import CrowdPad.Text.CaseTables

/-! Lower case for words typed in chat. Every letter has a lower-case form of its own, apart from
two rules that need more than the letter: the dotted capital I becomes an i followed by a combining
dot, and a capital sigma becomes a final sigma where it ends a word. -/

namespace CrowdPad.Text

/-- Whether a number lies in one of the closed intervals. -/
def inSpans (spans : List (Nat × Nat)) (n : Nat) : Bool :=
  spans.any fun span => span.1 ≤ n && n ≤ span.2

/-- Whether the final sigma rule looks through this character. -/
def isCaseIgnorable (c : Char) : Bool := inSpans caseIgnorableSpans c.toNat

/-- Whether this character is a letter with case, as far as the final sigma rule asks. -/
def isCased (c : Char) : Bool := inSpans casedSpans c.toNat

/-- The lower-case form of a single letter, where it is a single character. -/
def lowerChar (c : Char) : Char :=
  if c.toNat < 0x80 then c.toLower
  else
    match lowerRuns.find? fun run =>
        run.1 ≤ c.toNat && c.toNat ≤ run.2.1 && (c.toNat - run.1) % run.2.2.1 == 0 with
    | some run => Char.ofNat (Int.toNat (c.toNat + run.2.2.2))
    | none => c

/-- Whether the nearest character that the final sigma rule does not look through is cased. -/
def casedNext (cs : List Char) : Bool :=
  match cs.dropWhile isCaseIgnorable with
  | c :: _ => isCased c
  | [] => false

/-- Lower-cases the rest of a text; `before` holds what precedes it, nearest character first. -/
def lowerAfter (before : List Char) : List Char → List Char
  | [] => []
  | c :: rest =>
    let image :=
      if c = 'Σ' then
        [if casedNext before && !casedNext rest then 'ς' else 'σ']
      else if c = 'İ' then ['i', '\u0307']
      else [lowerChar c]
    image ++ lowerAfter (c :: before) rest

/-- A text in lower case. -/
def lower (s : String) : String := String.ofList (lowerAfter [] s.toList)

end CrowdPad.Text
