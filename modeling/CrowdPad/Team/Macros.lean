import CrowdPad.Team.Basic

/-! Changing the macros of a team while it runs. A change counts only once it is written to the
macro file, where there is one to be kept; otherwise the team is left as it was. -/

namespace CrowdPad.Team

/-- Writes macros to the macro file of a team that keeps one. -/
def persist (fs : Files) (config : TeamConfig) (macros : MacroTable) :
    Files × Except TeamError Unit :=
  match config.macros.file, config.macros.persistent with
  | some path, true =>
    let (fs, result) := MacroFile.save fs path { name := config.name, macros := macros.toSteps }
    (fs, result.mapError .storage)
  | _, _ => (fs, .ok ())

/-- Replaces the macros of a team by changed ones, if they can be made and kept. -/
def updateMacros (fs : Files) (t : Team) (kind name : String)
    (changed : Except MacroError MacroTable) : Files × Except TeamError (Team × List Notice) :=
  if !t.config.macros.allowChanges then (fs, .error (.macros .changesDisabled))
  else
    match changed with
    | .error error => (fs, .error (.macros error))
    | .ok macros =>
      let payload : Value := .record [("macro", .text (Text.lower name))]
      match persist fs t.config macros with
      | (fs, .error error) => (fs, .error error)
      | (fs, .ok ()) =>
        (fs, .ok ({ t with macros }, [.log .info kind payload, .event kind payload]))

/-- The macro of a body, for a team. -/
def compileMacro (t : Team) (name body : String) : Except MacroError Macro :=
  Macro.compile t.config.grammar t.verbs t.macros t.config.macros.limits name body

def addMacro (fs : Files) (t : Team) (name body : String) :
    Files × Except TeamError (Team × List Notice) :=
  updateMacros fs t "macro.added" name (t.compileMacro name body >>= t.macros.add)

def changeMacro (fs : Files) (t : Team) (name body : String) :
    Files × Except TeamError (Team × List Notice) :=
  updateMacros fs t "macro.changed" name
    (t.compileMacro name body >>= fun m => (t.macros.change m).map (·.1))

def removeMacro (fs : Files) (t : Team) (name : String) :
    Files × Except TeamError (Team × List Notice) :=
  updateMacros fs t "macro.removed" name ((t.macros.remove name).map (·.1))

/-- The second half of a reload: takes over what was read from the macro file. -/
def takeMacroFile (now : Time) (file : Option MacroFile) (t : Team) : Team × List Notice × Nat :=
  match file with
  | none => (t, [], t.macros.entries.length)
  | some file =>
    let t := t.withMacroFile now file
    let loaded := t.macros.entries.length
    (t, [.log .info "macro.reloaded" <| .record [("macros", .nat loaded)]], loaded)

/-- Loads the macros from the macro file again, and says how many there are. -/
def reloadMacros (fs : Files) (now : Time) (t : Team) :
    Except TeamError (Team × List Notice × Nat) := do
  return t.takeMacroFile now (← readMacroFile fs t.config)

/-- Replaces the macros by stored ones; those that are refused are recorded and returned. Macros
that cannot be kept in the file are taken over all the same. -/
def restore (fs : Files) (now : Time) (t : Team) (stored : StoredMacros) :
    Files × Team × List MacroError :=
  let (macros, errors) := MacroTable.ofSteps t.verbs t.config.macros.limits stored
  let t := { t.drop now "" (errors.map MacroError.message) with macros }
  ((persist fs t.config macros).1, t, errors)

def snapshotValue (t : Team) : Value :=
  .record [("macros", .ofStoredMacros t.macros.toSteps)]

end CrowdPad.Team

def CrowdPad.Value.toSnapshot? (v : Value) : Option StoredMacros := do
  match ← v.toFields? ["macros"] with
  | [macros] => orDefault [] toStoredMacros? macros
  | _ => none
