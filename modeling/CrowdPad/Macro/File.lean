import CrowdPad.Macro.Table
import CrowdPad.Files.Tree
import CrowdPad.Data.Json.Printer
import CrowdPad.Data.Json.Reader

/-! Macro files: a collection of macros as JSON, replaced as a whole by writing a second file beside
it and moving that one into its place. -/

namespace CrowdPad

/-- A named collection of macros. -/
structure MacroFile where
  name : String := ""
  macros : StoredMacros := []
deriving Repr, DecidableEq, Inhabited

/-- Why a macro file cannot be used. -/
inductive StorageFault where
  | create (folder : String) (fault : FileFault)
  | write (path : String) (fault : FileFault)
  | replace (path : String) (fault : FileFault)
  | read (path : String) (fault : FileFault)
  | parse (path : String)
deriving Repr, DecidableEq

def StorageFault.message : StorageFault → String
  | .create folder fault => "failed to create " ++ folder ++ ": " ++ fault.message
  | .write path fault => "failed to write " ++ path ++ ": " ++ fault.message
  | .replace path fault => "failed to replace macro file " ++ path ++ ": " ++ fault.message
  | .read path fault => "failed to read macro file " ++ path ++ ": " ++ fault.message
  | .parse path => "failed to parse macro file " ++ path ++ ": not a collection of macros"

namespace MacroFile

def toValue (file : MacroFile) : Value :=
  .record [("name", .text file.name), ("macros", .ofStoredMacros file.macros)]

end MacroFile

def Value.toMacroFile? (v : Value) : Option MacroFile := do
  match ← v.toFields? ["name", "macros"] with
  | [name, macros] =>
    return {
      name := ← orDefault "" toText? name
      macros := ← orDefault [] toStoredMacros? macros }
  | _ => none

namespace MacroFile

/-- Reads the file at a path; a missing file is an empty collection. -/
def load (fs : Files) (path : String) : Except StorageFault MacroFile :=
  if (fs.at? path).isNone then .ok {}
  else
    match fs.read path with
    | .error fault => .error (.read path fault)
    | .ok content =>
      match (Json.read content).bind Value.toMacroFile? with
      | some file => .ok file
      | none => .error (.parse path)

/-- The file that is written beside the one at a path before it takes its place. -/
def staging (path : String) : String := Path.withExtension path "json.tmp"

/-- Creates the folders around a path. The files as they are left are returned in any case. -/
def makeRoom (fs : Files) (path : String) : Files × Except StorageFault Unit :=
  match Path.parent? path with
  | some parent =>
    let (fs, result) := fs.makeFolders parent
    (fs, result.mapError (.create parent))
  | none => (fs, .ok ())

/-- Replaces the file at a path. The files as they are left are returned in any case. -/
def save (fs : Files) (path : String) (file : MacroFile) : Files × Except StorageFault Unit :=
  match makeRoom fs path with
  | (fs, .error fault) => (fs, .error fault)
  | (fs, .ok ()) =>
    match fs.write (staging path) (Json.pretty file.toValue) with
    | .error fault => (fs, .error (.write (staging path) fault))
    | .ok fs =>
      match fs.rename (staging path) path with
      | .error fault => (fs, .error (.replace path fault))
      | .ok fs => (fs, .ok ())

end MacroFile

end CrowdPad
