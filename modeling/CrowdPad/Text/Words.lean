/-! Words and the white space between them. White space is the Unicode property of that name, so the
no-break space, the ideographic space and the line separators part words like a blank does. -/

namespace CrowdPad.Text

/-- The characters with the Unicode property White_Space. -/
def isBlank (c : Char) : Bool :=
  let n := c.toNat
  (0x9 ≤ n && n ≤ 0xD) || n == 0x20 || n == 0x85 || n == 0xA0 || n == 0x1680 ||
    (0x2000 ≤ n && n ≤ 0x200A) || n == 0x2028 || n == 0x2029 || n == 0x202F || n == 0x205F ||
    n == 0x3000

/-- Splits at white space; `word` holds the characters of the word being read, last one first. -/
def wordsFrom (word : List Char) : List Char → List (List Char)
  | [] => if word.isEmpty then [] else [word.reverse]
  | c :: rest =>
    if isBlank c then
      if word.isEmpty then wordsFrom [] rest else word.reverse :: wordsFrom [] rest
    else wordsFrom (c :: word) rest

/-- The words of a text: its longest stretches without white space, in order. -/
def words (s : String) : List (List Char) := wordsFrom [] s.toList

/-- The text without the white space at its end. -/
def trimEnd (cs : List Char) : List Char := (cs.reverse.dropWhile isBlank).reverse

def trim (cs : List Char) : List Char := trimEnd (cs.dropWhile isBlank)

/-- What is left of a text after a given beginning, if it begins so. -/
def dropStart? (start : List Char) (cs : List Char) : Option (List Char) :=
  if start.isPrefixOf cs then some (cs.drop start.length) else none

/-- Splits at a separator into so many parts and one more; the last part keeps what separators it
has. -/
def splitParts (separator : Char) : Nat → List Char → List (List Char)
  | 0, cs => [cs]
  | n + 1, cs =>
    match cs.dropWhile (· ≠ separator) with
    | [] => [cs]
    | _ :: rest => cs.takeWhile (· ≠ separator) :: splitParts separator n rest

/-- The ten ASCII digits. -/
def isDigit (c : Char) : Bool := '0' ≤ c && c ≤ '9'

/-- Whether a word is a non-empty string of digits. -/
def isDigits (word : List Char) : Bool := !word.isEmpty && word.all isDigit

/-- The number a string of digits stands for. -/
def digitsValue (word : List Char) : Nat :=
  word.foldl (fun n c => 10 * n + (c.toNat - '0'.toNat)) 0

end CrowdPad.Text
