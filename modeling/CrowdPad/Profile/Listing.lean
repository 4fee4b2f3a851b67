import CrowdPad.Profile.Builtin

/-! The listing of the built-in profiles, a line for each verb. -/

namespace CrowdPad.Profile

/-- A text with blanks behind it up to a width. -/
def padRight (width : Nat) (s : String) : String :=
  s ++ String.ofList (List.replicate (width - s.length) ' ')

def padLeft (width : Nat) (s : String) : String :=
  String.ofList (List.replicate (width - s.length) ' ') ++ s

/-- The word for an input kind in the listing. -/
def kindWord : InputKind → String
  | .pressRelease => "PressRelease"
  | .toggle => "Toggle"

def verbLine (t : VerbTable) (v : Verb) : String :=
  let synonyms := t.synonymsOf v.name
  "  " ++ padRight 10 v.name ++ " key=" ++ padRight 12 v.key ++ " " ++
    padLeft 4 (toString v.defaultMs.toNat) ++ " ms " ++ kindWord v.kind ++
    if synonyms.isEmpty then "" else "  aliases: " ++ ", ".intercalate synonyms

def listing (name : String) (t : VerbTable) : List String :=
  (name ++ " (" ++ toString t.verbs.length ++ " verbs)") :: t.verbs.map (verbLine t)

def builtinListing : Except SetupError (List String) := do
  let tables ← builtinNames.mapM fun name => (builtin name).map fun t => listing name t
  return tables.flatten

end CrowdPad.Profile
