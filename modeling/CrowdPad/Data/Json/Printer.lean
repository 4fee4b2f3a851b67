import CrowdPad.Data.Value

/-! JSON text of a value, compact on one line or indented by two spaces. Only the quotation mark,
the backslash and control characters are escaped; a control character has its short escape where
JSON has one and four lower-case hexadecimal digits elsewhere. -/

namespace CrowdPad.Json

def hexDigit (n : Nat) : Char :=
  if n < 10 then Char.ofNat (n + '0'.toNat) else Char.ofNat (n - 10 + 'a'.toNat)

/-- A character as it stands inside quotation marks. -/
def escape (c : Char) : List Char :=
  if c = '"' then ['\\', '"']
  else if c = '\\' then ['\\', '\\']
  else if c = '\x08' then ['\\', 'b']
  else if c = '\x0c' then ['\\', 'f']
  else if c = '\n' then ['\\', 'n']
  else if c = '\r' then ['\\', 'r']
  else if c = '\t' then ['\\', 't']
  else if c.toNat < 0x20 then
    ['\\', 'u', '0', '0', hexDigit (c.toNat / 16), hexDigit (c.toNat % 16)]
  else [c]

/-- A text between quotation marks. -/
def quoteChars (s : String) : List Char := '"' :: s.toList.flatMap escape ++ ['"']

def natChars (n : Nat) : List Char := (toString n).toList

def intChars : Int → List Char
  | .ofNat n => natChars n
  | .negSucc n => '-' :: natChars (n + 1)

/-- A decimal number written positionally, with at least one digit on either side of the point. -/
def decimalChars (d : Decimal) : List Char :=
  let sign := if d.mantissa < 0 then ['-'] else []
  let digits := natChars d.mantissa.natAbs
  if 0 ≤ d.exponent then sign ++ digits ++ List.replicate d.exponent.toNat '0' ++ ['.', '0']
  else
    let places := d.exponent.natAbs
    let padded := List.replicate (places + 1 - digits.length) '0' ++ digits
    let whole := padded.take (padded.length - places)
    let fraction := padded.drop (padded.length - places)
    let kept := (fraction.reverse.dropWhile (· == '0')).reverse
    sign ++ whole ++ ['.'] ++ if kept.isEmpty then ['0'] else kept

mutual

/-- A value on one line, without spaces. -/
def compactChars : Value → List Char
  | .null => "null".toList
  | .bool true => "true".toList
  | .bool false => "false".toList
  | .int n => intChars n
  | .real d => decimalChars d
  | .text s => quoteChars s
  | .list items => '[' :: compactItems items ++ [']']
  | .record fields => '\x7b' :: compactFields fields ++ ['\x7d']
  | .unreadable => "null".toList

def compactItems : List Value → List Char
  | [] => []
  | [item] => compactChars item
  | item :: items => compactChars item ++ ',' :: compactItems items

def compactFields : List (String × Value) → List Char
  | [] => []
  | [(name, value)] => quoteChars name ++ ':' :: compactChars value
  | (name, value) :: fields =>
    quoteChars name ++ ':' :: compactChars value ++ ',' :: compactFields fields

end

/-- A new line indented to the given depth. -/
def lineBreak (depth : Nat) : List Char := '\n' :: List.replicate (2 * depth) ' '

mutual

/-- A value over several lines, its closing bracket at the given depth. -/
def prettyChars (depth : Nat) : Value → List Char
  | .list [] => ['[', ']']
  | .list items => '[' :: prettyItems (depth + 1) items ++ lineBreak depth ++ [']']
  | .record [] => ['\x7b', '\x7d']
  | .record fields => '\x7b' :: prettyFields (depth + 1) fields ++ lineBreak depth ++ ['\x7d']
  | .null => "null".toList
  | .bool true => "true".toList
  | .bool false => "false".toList
  | .int n => intChars n
  | .real d => decimalChars d
  | .text s => quoteChars s
  | .unreadable => "null".toList

def prettyItems (depth : Nat) : List Value → List Char
  | [] => []
  | [item] => lineBreak depth ++ prettyChars depth item
  | item :: items => lineBreak depth ++ prettyChars depth item ++ ',' :: prettyItems depth items

def prettyFields (depth : Nat) : List (String × Value) → List Char
  | [] => []
  | [(name, value)] => lineBreak depth ++ quoteChars name ++ ':' :: ' ' :: prettyChars depth value
  | (name, value) :: fields =>
    lineBreak depth ++ quoteChars name ++ ':' :: ' ' :: prettyChars depth value ++
      ',' :: prettyFields depth fields

end

/-- JSON text on one line. -/
def compact (v : Value) : String := String.ofList (compactChars v)

/-- JSON text over several lines. -/
def pretty (v : Value) : String := String.ofList (prettyChars 0 v)

end CrowdPad.Json
