import CrowdPad.Data.Json.Printer

/-! TOML text of a record. Every field of the record is a line of its own, with tables and lists
written inline; fields that are `null` are left out, since TOML has no such value. -/

namespace CrowdPad.Toml

/-- A character as it stands inside quotation marks; TOML escapes one more than JSON. -/
def escape (c : Char) : List Char :=
  if c = '\x7f' then "\\u007f".toList else Json.escape c

def quoteChars (s : String) : List Char := '"' :: s.toList.flatMap escape ++ ['"']

mutual

/-- A value on one line. -/
def valueChars : Value → List Char
  | .text s => quoteChars s
  | .list items => '[' :: itemsChars items ++ [']']
  | .record fields => '\x7b' :: fieldsChars fields ++ ['\x7d']
  | .null => []
  | .bool true => "true".toList
  | .bool false => "false".toList
  | .int n => Json.intChars n
  | .real d => Json.decimalChars d
  | .unreadable => []

def itemsChars : List Value → List Char
  | [] => []
  | item :: items => valueChars item ++ ',' :: itemsChars items

def fieldsChars : List (String × Value) → List Char
  | [] => []
  | (_, .null) :: fields => fieldsChars fields
  | (name, value) :: fields =>
    let rest := fieldsChars fields
    quoteChars name ++ '=' :: valueChars value ++ if rest.isEmpty then [] else ',' :: rest

end

/-- The document of a record. -/
def document : Value → String
  | .record fields =>
    String.ofList (fields.flatMap fun (name, value) =>
      match value with
      | .null => []
      | value => quoteChars name ++ '=' :: valueChars value ++ ['\n'])
  | _ => ""

end CrowdPad.Toml
