import CrowdPad.Macro.Basic

/-! The macros of a team, in the order in which they were added, and the words of its chat: the
verbs first, then the macros. -/

namespace CrowdPad

/-- Macros under their names, in lower case. -/
structure MacroTable where
  entries : List (String × Macro) := []
deriving Repr, DecidableEq, Inhabited

/-- The lists of steps that macros are stored as. -/
abbrev StoredMacros := List (String × List MacroStep)

namespace MacroTable

/-- The macro with this name, in any case of letters. -/
def get? (t : MacroTable) (name : String) : Option Macro := t.entries.lookup (Text.lower name)

def names (t : MacroTable) : List String := t.entries.map (·.1)

def add (t : MacroTable) (m : Macro) : Except MacroError MacroTable :=
  if t.names.contains m.name then .error (.alreadyExists m.name)
  else .ok { entries := t.entries ++ [(m.name, m)] }

/-- Replaces the macro of the same name, which is also returned. -/
def change (t : MacroTable) (m : Macro) : Except MacroError (MacroTable × Macro) :=
  match t.entries.lookup m.name with
  | some old => .ok ({ entries := Value.putEntry m.name m t.entries }, old)
  | none => .error (.missing m.name)

/-- Removes the macro with this name, in any case of letters, which is also returned. -/
def remove (t : MacroTable) (name : String) : Except MacroError (MacroTable × Macro) :=
  let name := Text.lower name
  match t.entries.lookup name with
  | some old => .ok ({ entries := t.entries.filter fun entry => entry.1 != name }, old)
  | none => .error (.missing name)

def toSteps (t : MacroTable) : StoredMacros := t.entries.map fun (name, m) => (name, m.steps)

/-- Adds the macros of stored steps; those that are refused are left out and their errors listed. -/
def addSteps (verbs : VerbTable) (limits : MacroLimits) (t : MacroTable) :
    StoredMacros → MacroTable × List MacroError
  | [] => (t, [])
  | (name, steps) :: rest =>
    match Macro.ofSteps verbs limits name steps >>= t.add with
    | .ok t => addSteps verbs limits t rest
    | .error error =>
      let (t, errors) := addSteps verbs limits t rest
      (t, error :: errors)

/-- The table of stored steps, with the errors of those macros that are refused. -/
def ofSteps (verbs : VerbTable) (limits : MacroLimits) (stored : StoredMacros) :
    MacroTable × List MacroError :=
  addSteps verbs limits {} stored

end MacroTable

/-- What a word means to a team. -/
inductive Meaning where
  | verb (v : Verb)
  | stored (name : String)
deriving Repr, DecidableEq

/-- The meaning of a word among verbs and macros. -/
def meaning? (verbs : VerbTable) (macros : MacroTable) (word : String) : Option Meaning :=
  match verbs.resolve? word with
  | some v => some (.verb v)
  | none => (macros.get? word).map fun m => .stored m.name

/-- The requests that a command makes, those of a macro one for each of its steps. -/
def Command.requests (verbs : VerbTable) (macros : MacroTable) (command : Command Meaning) :
    Except MacroError (List Request) :=
  match command.meaning with
  | .verb v => (macroRequest command.timing v).map fun r => [r]
  | .stored name =>
    match macros.get? name with
    | some m => m.expand verbs command.timing
    | none => .error (.missing name)

namespace Macro

/-- The macro of a body such as `right 200 jump 100+50`. Macros that it invokes are unfolded. -/
def compile (g : Grammar) (verbs : VerbTable) (macros : MacroTable) (limits : MacroLimits)
    (name body : String) : Except MacroError Macro := do
  let name ← macroName name
  let parsed := g.parseBody (meaning? verbs macros) body
  match parsed.malformed, parsed.unknown with
  | malformed :: _, _ => throw (.timing malformed)
  | [], word :: _ => throw (.unknownVerb name word)
  | [], [] =>
    let requests ← parsed.commands.mapM (Command.requests verbs macros)
    ofClamped name (requests.flatten.map MacroStep.ofRequest) limits

end Macro

end CrowdPad

namespace CrowdPad.Value

def toStoredMacros? : Value → Option StoredMacros := toMap? (toList? toMacroStep?)

def ofStoredMacros (stored : StoredMacros) : Value :=
  .record (stored.map fun (name, steps) => (name, .list (steps.map MacroStep.toValue)))

end CrowdPad.Value
