import CrowdPad.Files.Path

/-! A tree of folders and text files. Paths are walked name by name: every name but the last has to
be that of a folder, and two dots lead back to the folder around. -/

namespace CrowdPad

/-- What a path leads to. -/
inductive FileEntry where
  | folder
  | file (content : String)
deriving Repr, DecidableEq

/-- Why a path cannot be used. -/
inductive FileFault where
  | missing
  | exists
  | notAFolder
  | isAFolder
deriving Repr, DecidableEq

def FileFault.message : FileFault → String
  | .missing => "No such file or directory (os error 2)"
  | .exists => "File exists (os error 17)"
  | .notAFolder => "Not a directory (os error 20)"
  | .isAFolder => "Is a directory (os error 21)"

/-- Files and folders by their names from the root, which is always there. -/
structure Files where
  entries : List (List String × FileEntry) := []
  /-- The folder that paths count from. -/
  home : List String := []
deriving Repr, DecidableEq, Inhabited

namespace Files

/-- What stands at a place. -/
def entry? (fs : Files) (place : List String) : Option FileEntry :=
  if place.isEmpty then some .folder else fs.entries.lookup place

def put (fs : Files) (place : List String) (entry : FileEntry) : Files :=
  { fs with entries := fs.entries.filter (fun e => e.1 != place) ++ [(place, entry)] }

def drop (fs : Files) (place : List String) : Files :=
  { fs with entries := fs.entries.filter fun e => e.1 != place }

/-- Walks from a folder. The place reached may be free, but the folder around it is there. -/
def walk (fs : Files) (folder : List String) : List String → Except FileFault (List String)
  | [] => .ok folder
  | name :: rest =>
    if name = "" || name = "." then walk fs folder rest
    else if name = ".." then walk fs folder.dropLast rest
    else
      let place := folder ++ [name]
      match fs.entry? place with
      | some .folder => walk fs place rest
      | some (.file _) => if rest.isEmpty then .ok place else .error .notAFolder
      | none => if rest.all String.isEmpty then .ok place else .error .missing

/-- The place that a path leads to. -/
def place (fs : Files) (path : String) : Except FileFault (List String) :=
  if path.isEmpty then .error .missing
  else fs.walk (if Path.isAbsolute path then [] else fs.home) (Path.names path)

/-- What a path leads to. -/
def at? (fs : Files) (path : String) : Option FileEntry :=
  match fs.place path with
  | .ok place => fs.entry? place
  | .error _ => none

def isFolder (fs : Files) (path : String) : Bool := fs.at? path = some .folder

def read (fs : Files) (path : String) : Except FileFault String := do
  match fs.entry? (← fs.place path) with
  | some (.file content) => return content
  | some .folder => throw .isAFolder
  | none => throw .missing

/-- The content of a file, if there is one. -/
def read? (fs : Files) (path : String) : Option String := (fs.read path).toOption

/-- Replaces the content of a file by a function of it, for which a missing file is empty. -/
def modify (fs : Files) (path : String) (change : String → String) : Except FileFault Files := do
  let place ← fs.place path
  match fs.entry? place with
  | some (.file content) => return fs.put place (.file (change content))
  | some .folder => throw .isAFolder
  | none =>
    if Path.endsInSlash path then throw .isAFolder
    return fs.put place (.file (change ""))

def write (fs : Files) (path content : String) : Except FileFault Files :=
  fs.modify path fun _ => content

def append (fs : Files) (path content : String) : Except FileFault Files :=
  fs.modify path fun old => old ++ content

def createFolder (fs : Files) (path : String) : Except FileFault Files := do
  let place ← fs.place path
  match fs.entry? place with
  | some _ => throw .exists
  | none => return fs.put place .folder

/-- Creates a folder unless it is there. -/
def ensureFolder (fs : Files) (path : String) : Except FileFault Files :=
  match fs.createFolder path with
  | .ok fs => .ok fs
  | .error fault => if fs.isFolder path then .ok fs else .error fault

/-- What is there after something was tried, and how it ended. -/
def keep (fs : Files) : Except FileFault Files → Files × Except FileFault Unit
  | .ok fs => (fs, .ok ())
  | .error fault => (fs, .error fault)

/-- Creates a folder with all folders around it; the fuel bounds their number. What was created
before a fault stays. -/
def makeFoldersAround : Nat → Files → String → Files × Except FileFault Unit
  | 0, fs, path => if path.isEmpty then (fs, .ok ()) else fs.keep (fs.ensureFolder path)
  | fuel + 1, fs, path =>
    if path.isEmpty then (fs, .ok ())
    else
      match fs.createFolder path, Path.parent? path with
      | .error .missing, some parent =>
        match makeFoldersAround fuel fs parent with
        | (fs, .ok ()) => fs.keep (fs.ensureFolder path)
        | (fs, .error fault) => (fs, .error fault)
      | _, _ => fs.keep (fs.ensureFolder path)

/-- Creates a folder with all folders around it. The files as they are left are returned in any
case. -/
def makeFolders (fs : Files) (path : String) : Files × Except FileFault Unit :=
  makeFoldersAround path.length fs path

def createFolders (fs : Files) (path : String) : Except FileFault Files :=
  match fs.makeFolders path with
  | (fs, .ok ()) => .ok fs
  | (_, .error fault) => .error fault

/-- Moves a file, in place of the file that has the new name. -/
def rename (fs : Files) (path target : String) : Except FileFault Files := do
  let source ← fs.place path
  let goal ← fs.place target
  match fs.entry? source, fs.entry? goal with
  | none, _ => throw .missing
  | some (.file content), there =>
    if Path.endsInSlash target then throw .notAFolder
    if there = some .folder then throw .isAFolder
    return (fs.drop source).put goal (.file content)
  | some .folder, _ => return (fs.drop source).put goal .folder

def delete (fs : Files) (path : String) : Except FileFault Files := do
  let place ← fs.place path
  match fs.entry? place with
  | some (.file _) => return fs.drop place
  | some .folder => throw .isAFolder
  | none => throw .missing

end Files

end CrowdPad
