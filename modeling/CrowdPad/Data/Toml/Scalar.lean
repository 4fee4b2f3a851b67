import CrowdPad.Data.Value
import CrowdPad.Data.Json.Reader

/-! The values of TOML that hold no other values: text in its four forms, numbers, truth values and
dates. Dates and the numbers without a finite value are recognised and left `unreadable`. -/

namespace CrowdPad.Toml

/-- Whether a character may stand in a word without quotes. -/
def isBare (c : Char) : Bool := c.isAlphanum || c = '_' || c = '-'

/-- Whether a character may stand between quotation marks on one line. -/
def isPrintable (c : Char) : Bool := c = '\t' || (0x20 ≤ c.toNat && c.toNat ≠ 0x7F)

def hexValue? (digits : List Char) : Option Nat :=
  digits.foldl
    (fun n c => n.bind fun n => (Json.hexValue? (some c)).map fun d => 16 * n + d) (some 0)

/-- The character with this number, if it is one. -/
def scalar? (n : Nat) : Option Char := if n.isValidChar then some (Char.ofNat n) else none

/-- The character that an escape stands for, the backslash being read, and what follows it. -/
def readEscape : List Char → Option (Char × List Char)
  | 'b' :: rest => some ('\x08', rest)
  | 't' :: rest => some ('\t', rest)
  | 'n' :: rest => some ('\n', rest)
  | 'f' :: rest => some ('\x0c', rest)
  | 'r' :: rest => some ('\r', rest)
  | '"' :: rest => some ('"', rest)
  | '\\' :: rest => some ('\\', rest)
  | 'u' :: rest =>
    if rest.length < 4 then none
    else ((hexValue? (rest.take 4)).bind scalar?).map fun c => (c, rest.drop 4)
  | 'U' :: rest =>
    if rest.length < 8 then none
    else ((hexValue? (rest.take 8)).bind scalar?).map fun c => (c, rest.drop 8)
  | _ => none

theorem readEscape_length {input rest : List Char} {c : Char}
    (h : readEscape input = some (c, rest)) : rest.length < input.length := by
  unfold readEscape at h
  split at h
  case h_8 =>
    split at h
    · simp at h
    · obtain ⟨_, _, he⟩ := Option.map_eq_some_iff.1 h
      simp only [Prod.mk.injEq] at he
      simp only [← he.2, List.length_drop, List.length_cons]
      omega
  case h_9 =>
    split at h
    · simp at h
    · obtain ⟨_, _, he⟩ := Option.map_eq_some_iff.1 h
      simp only [Prod.mk.injEq] at he
      simp only [← he.2, List.length_drop, List.length_cons]
      omega
  all_goals simp_all

/-- The rest of a text between quotation marks on one line. -/
def readBasic (input : List Char) : Option (List Char × List Char) :=
  match input with
  | [] => none
  | '"' :: rest => some ([], rest)
  | '\\' :: rest =>
    match _h : readEscape rest with
    | some (c, rest') => (readBasic rest').map fun (cs, rest) => (c :: cs, rest)
    | none => none
  | c :: rest =>
    if isPrintable c then (readBasic rest).map fun (cs, rest) => (c :: cs, rest) else none
termination_by input.length
decreasing_by
  · have := readEscape_length _h
    simp only [List.length_cons]
    omega
  · simp

/-- The rest of a text between apostrophes on one line. -/
def readLiteral : List Char → Option (List Char × List Char)
  | [] => none
  | c :: rest =>
    if c = '\'' then some ([], rest)
    else if isPrintable c then (readLiteral rest).map fun (cs, rest) => (c :: cs, rest)
    else none

/-- White space and line ends. -/
def isGap (c : Char) : Bool := c = ' ' || c = '\t' || c = '\n' || c = '\r'

/-- Whether a backslash here ends its line, so that the gap behind it is no part of the text. -/
def endsLine (rest : List Char) : Bool :=
  match rest.dropWhile fun c => c = ' ' || c = '\t' with
  | '\n' :: _ => true
  | '\r' :: '\n' :: _ => true
  | _ => false

/-- What three closing marks end, where up to two marks before them still belong to the text. -/
def closing (mark : Char) (rest : List Char) : List Char × List Char :=
  match rest with
  | a :: b :: rest =>
    if a = mark then if b = mark then ([mark, mark], rest) else ([mark], b :: rest)
    else ([], a :: b :: rest)
  | [a] => if a = mark then ([mark], []) else ([], [a])
  | [] => ([], [])

theorem dropWhile_length_le {α : Type} (p : α → Bool) (xs : List α) :
    (xs.dropWhile p).length ≤ xs.length := (List.dropWhile_sublist p).length_le

/-- The rest of a text between triple quotation marks. -/
def readBasicLines (input : List Char) : Option (List Char × List Char) :=
  match input with
  | [] => none
  | '"' :: '"' :: '"' :: rest => some (closing '"' rest)
  | '\\' :: rest =>
    if endsLine rest then readBasicLines (rest.dropWhile isGap)
    else
      match _h : readEscape rest with
      | some (c, rest') => (readBasicLines rest').map fun (cs, rest) => (c :: cs, rest)
      | none => none
  | '\r' :: '\n' :: rest => (readBasicLines rest).map fun (cs, rest) => ('\n' :: cs, rest)
  | c :: rest =>
    if isPrintable c || c = '\n' then
      (readBasicLines rest).map fun (cs, rest) => (c :: cs, rest)
    else none
termination_by input.length
decreasing_by
  · have := dropWhile_length_le isGap rest
    simp only [List.length_cons]
    omega
  · have := readEscape_length _h
    simp only [List.length_cons]
    omega
  all_goals simp only [List.length_cons]; omega

/-- The rest of a text between triple apostrophes. -/
def readLiteralLines : List Char → Option (List Char × List Char)
  | [] => none
  | '\'' :: '\'' :: '\'' :: rest => some (closing '\'' rest)
  | '\r' :: '\n' :: rest => (readLiteralLines rest).map fun (cs, rest) => ('\n' :: cs, rest)
  | c :: rest =>
    if isPrintable c || c = '\n' then
      (readLiteralLines rest).map fun (cs, rest) => (c :: cs, rest)
    else none

/-- A text that spans lines does not include a line end right behind its opening marks. -/
def skipFirstBreak : List Char → List Char
  | '\n' :: rest => rest
  | '\r' :: '\n' :: rest => rest
  | rest => rest

/-- A text in any of the four forms. -/
def readString : List Char → Option (List Char × List Char)
  | '"' :: '"' :: '"' :: rest => readBasicLines (skipFirstBreak rest)
  | '\'' :: '\'' :: '\'' :: rest => readLiteralLines (skipFirstBreak rest)
  | '"' :: rest => readBasic rest
  | '\'' :: rest => readLiteral rest
  | _ => none

/-- Digits without the underscores between them; an underscore anywhere else is an error. -/
def plainDigits? (digit : Char → Bool) : List Char → Option (List Char)
  | [] => none
  | [c] => if digit c then some [c] else none
  | c :: '_' :: rest => if digit c then (plainDigits? digit rest).map (c :: ·) else none
  | c :: rest => if digit c then (plainDigits? digit rest).map (c :: ·) else none

/-- The value of digits in a base up to sixteen. -/
def digitsIn (base : Nat) (digits : List Char) : Nat :=
  digits.foldl (fun n c => base * n + (Json.hexValue? (some c)).getD 0) 0

/-- An integer, if it fits 64 bits with sign. -/
def integer? (n : Int) : Option Value :=
  if -9223372036854775808 ≤ n && n < 9223372036854775808 then some (.int n) else none

/-- Whether a digit belongs to a base up to sixteen. -/
def isDigitIn (base : Nat) (c : Char) : Bool :=
  match Json.hexValue? (some c) with
  | some d => d < base
  | none => false

/-- Takes a sign off a word. -/
def takeSign : List Char → Bool × List Char
  | '-' :: rest => (true, rest)
  | '+' :: rest => (false, rest)
  | rest => (false, rest)

/-- Digits before the point: no zero in front of others. -/
def wholeDigits? (word : List Char) : Option (List Char) :=
  match plainDigits? (isDigitIn 10) word with
  | some ('0' :: _ :: _) => none
  | digits => digits

/-- A number with a fraction, an exponent, or both, unless it is too large. -/
def decimal? (word : List Char) : Option Value := do
  let (negative, word) := takeSign word
  let isExponent (c : Char) : Bool := c = 'e' || c = 'E'
  let base := word.takeWhile fun c => !isExponent c
  let exponent : Int ← match word.dropWhile fun c => !isExponent c with
    | [] => some 0
    | _ :: rest =>
      let (below, digits) := takeSign rest
      let digits ← plainDigits? (isDigitIn 10) digits
      let n : Int := digitsIn 10 digits
      some (if below then -n else n)
  let whole ← wholeDigits? (base.takeWhile (· ≠ '.'))
  let fraction ← match base.dropWhile (· ≠ '.') with
    | [] => if word.any isExponent then some [] else none
    | _ :: rest => plainDigits? (isDigitIn 10) rest
  let n : Int := digitsIn 10 (whole ++ fraction)
  let d : Decimal := ⟨if negative then -n else n, exponent - fraction.length⟩
  if d.isFinite then some d.toValue else none

/-- Whether a word has the shape of a date or a time of day. -/
def isMoment (word : List Char) : Bool :=
  let shape := word.map fun c => if isDigitIn 10 c then 'd' else c
  "dddd-dd-dd".toList.isPrefixOf shape || "dd:dd:dd".toList.isPrefixOf shape

/-- The value of a word without quotes. -/
def word? (word : List Char) : Option Value :=
  if word = "true".toList then some (.bool true)
  else if word = "false".toList then some (.bool false)
  else if isMoment word then some .unreadable
  else
    let (negative, digits) := takeSign word
    if digits = "inf".toList || digits = "nan".toList then some .unreadable
    else
      match word with
      | '0' :: 'x' :: rest =>
        (plainDigits? (isDigitIn 16) rest).bind fun ds => integer? (digitsIn 16 ds)
      | '0' :: 'o' :: rest =>
        (plainDigits? (isDigitIn 8) rest).bind fun ds => integer? (digitsIn 8 ds)
      | '0' :: 'b' :: rest =>
        (plainDigits? (isDigitIn 2) rest).bind fun ds => integer? (digitsIn 2 ds)
      | _ =>
        match wholeDigits? digits with
        | some ds =>
          let n : Int := digitsIn 10 ds
          integer? (if negative then -n else n)
        | none => decimal? word

end CrowdPad.Toml
