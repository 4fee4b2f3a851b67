import CrowdPad.Data.Toml.Scalar
import CrowdPad.Data.Toml.Table

/-! Reading a TOML document, line by line. A document is a record; the order of its keys is kept. -/

namespace CrowdPad.Toml

def skipSpace (input : List Char) : List Char := input.dropWhile fun c => c = ' ' || c = '\t'

/-- A comment up to the end of its line, which may hold printable characters only. -/
def skipComment? (input : List Char) : Option (List Char) :=
  match input.dropWhile isPrintable with
  | [] => some []
  | '\n' :: rest => some ('\n' :: rest)
  | '\r' :: '\n' :: rest => some ('\n' :: rest)
  | _ => none

/-- Skips blanks, line ends and comments. -/
def skipGaps : Nat → List Char → Option (List Char)
  | 0, _ => none
  | fuel + 1, input =>
    match skipSpace input with
    | '\n' :: rest => skipGaps fuel rest
    | '\r' :: '\n' :: rest => skipGaps fuel rest
    | '#' :: rest => (skipComment? rest).bind (skipGaps fuel)
    | rest => some rest

/-- The end of a line, with an optional comment before it. -/
def endLine? (input : List Char) : Option (List Char) :=
  match skipSpace input with
  | [] => some []
  | '\n' :: rest => some rest
  | '\r' :: '\n' :: rest => some rest
  | '#' :: rest => skipComment? rest
  | _ => none

/-- One part of a key: a bare word, or text in quotes on one line. -/
def readPart : List Char → Option (String × List Char)
  | '"' :: rest => (readBasic rest).map fun (cs, rest) => (String.ofList cs, rest)
  | '\'' :: rest => (readLiteral rest).map fun (cs, rest) => (String.ofList cs, rest)
  | input =>
    match input.takeWhile isBare with
    | [] => none
    | word => some (String.ofList word, input.drop word.length)

/-- A key with its parts between dots. -/
def readKey : Nat → List Char → Option (List String × List Char)
  | 0, _ => none
  | fuel + 1, input =>
    match readPart (skipSpace input) with
    | none => none
    | some (part, rest) =>
      match skipSpace rest with
      | '.' :: rest => (readKey fuel rest).map fun (parts, rest) => (part :: parts, rest)
      | rest => some ([part], rest)

/-- Whether a character may stand in a value without quotes. -/
def isWord (c : Char) : Bool := isBare c || c = '+' || c = '.' || c = ':'

/-- The characters of a value without quotes; a date and its time of day may have a blank between.
-/
def takeWord (input : List Char) : List Char × List Char :=
  let word := input.takeWhile isWord
  let rest := input.drop word.length
  match rest with
  | ' ' :: c :: more =>
    if word.length = 10 && isMoment word && isDigitIn 10 c then
      let tail := (c :: more).takeWhile isWord
      (word ++ 'T' :: tail, (c :: more).drop tail.length)
    else (word, rest)
  | _ => (word, rest)

mutual

/-- The value at the head of the input. The fuel bounds nesting and length. -/
def readValue : Nat → List Char → Option (Value × List Char)
  | 0, _ => none
  | fuel + 1, input =>
    match input with
    | '[' :: rest =>
      match skipGaps (rest.length + 1) rest with
      | some (']' :: rest) => some (.list [], rest)
      | some rest => (readItems fuel rest).map fun (items, rest) => (.list items, rest)
      | none => none
    | '\x7b' :: rest =>
      match skipSpace rest with
      | '\x7d' :: rest => some (.record [], rest)
      | rest => (readInline fuel [] rest).map fun (entries, rest) =>
          (.record (entriesFields entries), rest)
    | c :: rest =>
      if c = '"' || c = '\'' then
        (readString (c :: rest)).map fun (cs, rest) => (.text (String.ofList cs), rest)
      else
        let (word, rest) := takeWord (c :: rest)
        (word? word).map fun v => (v, rest)
    | [] => none

def readItems : Nat → List Char → Option (List Value × List Char)
  | 0, _ => none
  | fuel + 1, input =>
    match readValue fuel input with
    | none => none
    | some (item, rest) =>
      match skipGaps (rest.length + 1) rest with
      | some (']' :: rest) => some ([item], rest)
      | some (',' :: rest) =>
        match skipGaps (rest.length + 1) rest with
        | some (']' :: rest) => some ([item], rest)
        | some rest => (readItems fuel rest).map fun (items, rest) => (item :: items, rest)
        | none => none
      | _ => none

def readInline : Nat → Entries → List Char → Option (Entries × List Char)
  | 0, _, _ => none
  | fuel + 1, entries, input =>
    match readKey (input.length + 1) input with
    | some (key, '=' :: rest) =>
      match readValue fuel (skipSpace rest) with
      | none => none
      | some (value, rest) =>
        match assign true key value entries with
        | none => none
        | some entries =>
          match skipSpace rest with
          | '\x7d' :: rest => some (entries, rest)
          | ',' :: rest => readInline fuel entries rest
          | _ => none
    | _ => none

end

/-- Opens the table that a header names, given how its last part opens. -/
def openAt (openLast : String → Entries → Option Entries) (path : List String)
    (entries : Entries) : Option Entries := do
  let last ← path.getLast?
  within (openLast last) path.dropLast entries

/-- The lines of a document, below the header with the given parts. -/
def readLines : Nat → List String → Entries → List Char → Option Entries
  | 0, _, _, _ => none
  | fuel + 1, header, entries, input =>
    match skipGaps (input.length + 1) input with
    | none => none
    | some [] => some entries
    | some ('[' :: '[' :: rest) =>
      match readKey (rest.length + 1) rest with
      | some (path, ']' :: ']' :: rest) =>
        match openAt openItem path entries, endLine? rest with
        | some entries, some rest => readLines fuel path entries rest
        | _, _ => none
      | _ => none
    | some ('[' :: rest) =>
      match readKey (rest.length + 1) rest with
      | some (path, ']' :: rest) =>
        match openAt openTable path entries, endLine? rest with
        | some entries, some rest => readLines fuel path entries rest
        | _, _ => none
      | _ => none
    | some input =>
      match readKey (input.length + 1) input with
      | some (key, '=' :: rest) =>
        match readValue (rest.length + 1) (skipSpace rest) with
        | none => none
        | some (value, rest) =>
          match within (assign true key value) header entries, endLine? rest with
          | some entries, some rest => readLines fuel header entries rest
          | _, _ => none
      | _ => none

/-- Reads a document, behind a byte order mark if it has one. -/
def read (s : String) : Option Value :=
  let input := match s.toList with
    | '\uFEFF' :: rest => rest
    | input => input
  (readLines (input.length + 1) [] [] input).map fun entries => .record (entriesFields entries)

end CrowdPad.Toml
