import CrowdPad.Data.Value
import CrowdPad.Data.Utf8

/-! Reading JSON text. The grammar is taken strictly: no byte order mark, no trailing comma, no
leading zero, nothing behind the value. A byte that belongs to no character is let through between
quotation marks only, and makes that text `unreadable`; so does a surrogate without its partner. A
record with such a name is `unreadable` as a whole. -/

namespace CrowdPad.Json

/-- What is still to be read, with `none` for a byte that belongs to no character. -/
abbrev Input := List (Option Char)

def isJsonBlank : Option Char → Bool
  | some c => c = ' ' || c = '\t' || c = '\n' || c = '\r'
  | none => false

def skipBlanks (input : Input) : Input := input.dropWhile isJsonBlank

def hexValue? : Option Char → Option Nat
  | some c =>
    if '0' ≤ c && c ≤ '9' then some (c.toNat - '0'.toNat)
    else if 'a' ≤ c && c ≤ 'f' then some (c.toNat - 'a'.toNat + 10)
    else if 'A' ≤ c && c ≤ 'F' then some (c.toNat - 'A'.toNat + 10)
    else none
  | none => none

def hexValue4? (a b c d : Option Char) : Option Nat := do
  let a ← hexValue? a
  let b ← hexValue? b
  let c ← hexValue? c
  let d ← hexValue? d
  return ((a * 16 + b) * 16 + c) * 16 + d

/-- The character that a one-letter escape stands for. -/
def shortEscape? : Char → Option Char
  | '"' => some '"'
  | '\\' => some '\\'
  | '/' => some '/'
  | 'b' => some '\x08'
  | 'f' => some '\x0c'
  | 'n' => some '\n'
  | 'r' => some '\r'
  | 't' => some '\t'
  | _ => none

/-- Whether a code unit is the first half of a surrogate pair. -/
def isHighSurrogate (n : Nat) : Bool := 0xD800 ≤ n && n < 0xDC00

/-- Whether a code unit is the second half of a surrogate pair. -/
def isLowSurrogate (n : Nat) : Bool := 0xDC00 ≤ n && n < 0xE000

/-- The low half of a surrogate pair, escaped at the head of the input. -/
def lowEscape? : Input → Option (Nat × Input)
  | some '\\' :: some 'u' :: a :: b :: c :: d :: rest =>
    match hexValue4? a b c d with
    | some n => if isLowSurrogate n then some (n, rest) else none
    | none => none
  | _ => none

theorem lowEscape?_length {input rest : Input} {n : Nat} (h : lowEscape? input = some (n, rest)) :
    rest.length < input.length := by
  unfold lowEscape? at h
  split at h
  · split at h
    · split at h
      · simp only [Option.some.injEq, Prod.mk.injEq] at h
        simp only [← h.2, List.length_cons]
        omega
      · simp at h
    · simp at h
  · simp at h

/-- The characters up to the closing quotation mark and what follows it. `read` holds the characters
so far, last one first, or `none` once one of them could not be read. -/
def readText (read : Option (List Char)) (input : Input) : Option (Option String × Input) :=
  match input with
  | [] => none
  | none :: rest => readText none rest
  | some c :: rest =>
    if c = '"' then some (read.map fun cs => String.ofList cs.reverse, rest)
    else if c = '\\' then
      match rest with
      | some 'u' :: d₁ :: d₂ :: d₃ :: d₄ :: rest =>
        match hexValue4? d₁ d₂ d₃ d₄ with
        | none => none
        | some n =>
          if isHighSurrogate n then
            match h : lowEscape? rest with
            | some (low, rest') =>
              let c := Char.ofNat (0x10000 + (n - 0xD800) * 0x400 + (low - 0xDC00))
              readText (read.map (c :: ·)) rest'
            | none => readText none rest
          else if isLowSurrogate n then readText none rest
          else readText (read.map (Char.ofNat n :: ·)) rest
      | some e :: rest =>
        match shortEscape? e with
        | some c => readText (read.map (c :: ·)) rest
        | none => none
      | _ => none
    else if c.toNat < 0x20 then none
    else readText (read.map (c :: ·)) rest
termination_by input.length
decreasing_by
  all_goals simp only [List.length_cons]
  all_goals first
    | omega
    | have := lowEscape?_length h
      omega

/-- The digits at the head of the input and what follows them. -/
def readDigits : Input → List Char × Input
  | some c :: rest =>
    if '0' ≤ c && c ≤ '9' then
      let (digits, rest) := readDigits rest
      (c :: digits, rest)
    else ([], some c :: rest)
  | rest => ([], rest)

/-- The number that digits stand for. -/
def digitsNat (digits : List Char) : Nat :=
  digits.foldl (fun n c => 10 * n + (c.toNat - '0'.toNat)) 0

/-- The digits before the point: a single zero, or digits that do not begin with one. -/
def readWhole (input : Input) : Option (List Char × Input) :=
  match readDigits input with
  | ([], _) => none
  | ('0' :: _ :: _, _) => none
  | (digits, rest) => some (digits, rest)

/-- The digits behind a point, if there is one. -/
def readFraction : Input → Option (Option (List Char) × Input)
  | some '.' :: rest =>
    match readDigits rest with
    | ([], _) => none
    | (digits, rest) => some (some digits, rest)
  | rest => some (none, rest)

/-- The exponent behind its letter, if there is one. -/
def readExponent : Input → Option (Option Int × Input)
  | some e :: rest =>
    if e = 'e' || e = 'E' then
      let (negative, rest) :=
        match rest with
        | some '-' :: rest => (true, rest)
        | some '+' :: rest => (false, rest)
        | rest => (false, rest)
      match readDigits rest with
      | ([], _) => none
      | (digits, rest) =>
        let n : Int := digitsNat digits
        some (some (if negative then -n else n), rest)
    else some (none, some e :: rest)
  | rest => some (none, rest)

/-- A number. Without point and exponent it is an integer, except for minus zero, which is not one.
-/
def readNumber (input : Input) : Option (Value × Input) :=
  let (negative, input) :=
    match input with
    | some '-' :: rest => (true, rest)
    | rest => (false, rest)
  match readWhole input with
  | none => none
  | some (whole, input) =>
    match readFraction input with
    | none => none
    | some (fraction, input) =>
      match readExponent input with
      | none => none
      | some (exponent, input) =>
        let signed (n : Nat) : Int := if negative then -n else n
        match fraction, exponent with
        | none, none =>
          let n := digitsNat whole
          if negative && n == 0 then some (.real ⟨0, 0⟩, input) else some (.int (signed n), input)
        | fraction, exponent =>
          let places := fraction.getD []
          let mantissa := signed (digitsNat (whole ++ places))
          some (Decimal.toValue ⟨mantissa, exponent.getD 0 - places.length⟩, input)

/-- A record, unless one of its names could not be read. -/
def recordOf (fields : List (Option String × Value)) : Value :=
  match fields.mapM fun field => field.1.map fun name => (name, field.2) with
  | some fields => .record fields
  | none => .unreadable

mutual

/-- The value at the head of the input. The fuel bounds nesting and length. -/
def readValue : Nat → Input → Option (Value × Input)
  | 0, _ => none
  | fuel + 1, input =>
    match skipBlanks input with
    | some '"' :: rest =>
      (readText (some []) rest).map fun (s, rest) =>
        (match s with | some s => .text s | none => .unreadable, rest)
    | some '[' :: rest =>
      match skipBlanks rest with
      | some ']' :: rest => some (.list [], rest)
      | rest => (readItems fuel rest).map fun (items, rest) => (.list items, rest)
    | some '\x7b' :: rest =>
      match skipBlanks rest with
      | some '\x7d' :: rest => some (.record [], rest)
      | rest => (readFields fuel rest).map fun (fields, rest) => (recordOf fields, rest)
    | some 't' :: some 'r' :: some 'u' :: some 'e' :: rest => some (.bool true, rest)
    | some 'f' :: some 'a' :: some 'l' :: some 's' :: some 'e' :: rest => some (.bool false, rest)
    | some 'n' :: some 'u' :: some 'l' :: some 'l' :: rest => some (.null, rest)
    | rest => readNumber rest

def readItems : Nat → Input → Option (List Value × Input)
  | 0, _ => none
  | fuel + 1, input =>
    match readValue fuel input with
    | none => none
    | some (item, rest) =>
      match skipBlanks rest with
      | some ',' :: rest => (readItems fuel rest).map fun (items, rest) => (item :: items, rest)
      | some ']' :: rest => some ([item], rest)
      | _ => none

def readFields : Nat → Input → Option (List (Option String × Value) × Input)
  | 0, _ => none
  | fuel + 1, input =>
    match skipBlanks input with
    | some '"' :: rest =>
      match readText (some []) rest with
      | none => none
      | some (name, rest) =>
        match skipBlanks rest with
        | some ':' :: rest =>
          match readValue fuel rest with
          | none => none
          | some (value, rest) =>
            match skipBlanks rest with
            | some ',' :: rest =>
              (readFields fuel rest).map fun (fields, rest) => ((name, value) :: fields, rest)
            | some '\x7d' :: rest => some ([(name, value)], rest)
            | _ => none
        | _ => none
    | _ => none

end

/-- The one value that a JSON text consists of. -/
def readInput (input : Input) : Option Value :=
  match readValue (input.length + 1) input with
  | some (v, rest) => if (skipBlanks rest).isEmpty then some v else none
  | none => none

/-- Reads JSON text. -/
def read (s : String) : Option Value := readInput (s.toList.map some)

/-- Reads JSON text given as bytes. -/
def readBytes (bytes : List UInt8) : Option Value := readInput (Utf8.decode bytes)

end CrowdPad.Json
