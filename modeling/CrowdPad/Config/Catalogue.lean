import CrowdPad.Config.Basic
import CrowdPad.Profile.Builtin

/-! The catalogue of profiles. Declared profiles go before built-in ones, and of those declared
under one name, in any case of letters, the last counts, even if it cannot be used. -/

namespace CrowdPad

/-- Profiles by their names in lower case: those that can be used, and those that cannot, with the
reason. -/
structure Catalogue where
  tables : List (String × VerbTable) := []
  broken : List (String × String) := []
deriving Repr, DecidableEq, Inhabited

/-- Why the document of a profile cannot be used. -/
inductive ProfileFault where
  | read (path : String) (fault : FileFault)
  | parse (path : String)
deriving Repr, DecidableEq

namespace ProfileFault

/-- What was being done. -/
def summary : ProfileFault → String
  | .read path _ => "failed to read verb profile " ++ path
  | .parse path => "failed to parse verb profile " ++ path

def cause : ProfileFault → String
  | .read _ fault => fault.message
  | .parse _ => "not a verb profile"

def message (fault : ProfileFault) : String := fault.summary ++ ": " ++ fault.cause

end ProfileFault

namespace Profile.Document

def load (fs : Files) (path : String) : Except ProfileFault Document :=
  match fs.read path with
  | .error fault => .error (.read path fault)
  | .ok content =>
    match (Toml.read content).bind Value.toProfile? with
    | some document => .ok document
    | none => .error (.parse path)

end Profile.Document

namespace ProfileSource

/-- The table of a document under its name, or why there is none. -/
def build (document : Profile.Document) : String × Except String VerbTable :=
  (document.profile,
    document.toTable.mapError fun error =>
      "building verb profile '" ++ document.profile ++ "': " ++ error.message)

/-- The name that a declared profile has, and its table. One whose document cannot be read is named
after the file. -/
def resolve (fs : Files) : ProfileSource → String × Except String VerbTable
  | .inline document => build document
  | .file path =>
    match Profile.Document.load fs path with
    | .ok document => build document
    | .error fault => ((Path.fileStem? path).getD "", .error fault.message)

end ProfileSource

namespace Catalogue

/-- Takes out the entries of a name. -/
def without {α : Type} (name : String) (entries : List (String × α)) : List (String × α) :=
  entries.filter fun entry => entry.1 != name

def insert (c : Catalogue) (table : VerbTable) : Catalogue :=
  let name := Text.lower table.profile
  { tables := without name c.tables ++ [(name, table)], broken := without name c.broken }

/-- Adds a profile that cannot be used. -/
def markBroken (c : Catalogue) (name reason : String) : Catalogue :=
  let name := Text.lower name
  { tables := without name c.tables, broken := without name c.broken ++ [(name, reason)] }

def declare (fs : Files) (c : Catalogue) (source : ProfileSource) : Catalogue :=
  match source.resolve fs with
  | (_, .ok table) => c.insert table
  | (name, .error reason) => c.markBroken name reason

/-- The catalogue of declared profiles. -/
def ofSources (fs : Files) (sources : List ProfileSource) : Catalogue :=
  sources.foldl (declare fs) {}

/-- The profile of a name, in any case of letters. Built-in profiles are kept once they are asked
for. -/
def resolve (c : Catalogue) (name : String) : Catalogue × Except SetupError VerbTable :=
  let name := Text.lower name
  match c.tables.lookup name with
  | some table => (c, .ok table)
  | none =>
    match c.broken.lookup name with
    | some reason => (c, .error (.brokenProfile name reason))
    | none =>
      match Profile.builtin name with
      | .ok table => ({ c with tables := c.tables ++ [(name, table)] }, .ok table)
      | .error error => (c, .error error)

end Catalogue

end CrowdPad
