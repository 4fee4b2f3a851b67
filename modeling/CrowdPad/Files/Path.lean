/-! Paths as text: names parted by slashes, with a slash in front if they count from the root. Empty
names and single dots behind the first name are passed over. -/

namespace CrowdPad.Path

def isAbsolute (path : String) : Bool := path.toList.head? = some '/'

/-- A path counted from another one, unless it counts from the root. -/
def join (base path : String) : String :=
  if isAbsolute path then path
  else if base.isEmpty || base.toList.getLast? = some '/' then base ++ path
  else base ++ "/" ++ path

/-- Takes separators and single dots off the end of a path, which is given backwards. -/
def dropSlashes : List Char → List Char
  | ['/'] => ['/']
  | '/' :: rest => dropSlashes rest
  | ['.', '/'] => ['/']
  | '.' :: '/' :: rest => dropSlashes rest
  | cs => cs

/-- The last name of a path with what stands before it, both backwards. -/
def splitLast (path : String) : List Char × List Char :=
  let cs := dropSlashes path.toList.reverse
  (cs.takeWhile (· ≠ '/'), cs.dropWhile (· ≠ '/'))

/-- The path that the last name of a path counts from. -/
def parent? (path : String) : Option String :=
  match splitLast path with
  | ([], _) => none
  | (_, before) => some (String.ofList (dropSlashes before).reverse)

/-- The last name of a path, unless it is made of dots. -/
def fileName? (path : String) : Option String :=
  match splitLast path with
  | ([], _) => none
  | (['.'], _) => none
  | (['.', '.'], _) => none
  | (name, _) => some (String.ofList name.reverse)

/-- The last name of a path without what stands behind its last dot. A dot in front of the name does
not count. -/
def fileStem? (path : String) : Option String :=
  (fileName? path).map fun name =>
    match name.toList.reverse.dropWhile (· ≠ '.') with
    | [] => name
    | [_] => name
    | _ :: stem => String.ofList stem.reverse

/-- The path with another extension in place of the one behind the last dot of its last name. -/
def withExtension (path extension : String) : String :=
  match fileStem? path with
  | none => path
  | some stem =>
    String.ofList (splitLast path).2.reverse ++ stem ++ "." ++ extension

def names (path : String) : List String := (path.toList.splitOn '/').map String.ofList

/-- Whether a path is written as that of a folder. -/
def endsInSlash (path : String) : Bool := path.toList.getLast? = some '/'

end CrowdPad.Path
