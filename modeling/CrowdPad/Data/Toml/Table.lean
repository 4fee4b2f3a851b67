import CrowdPad.Data.Value

/-! A TOML document under construction. Which keys may still be added to a table depends on how the
table came about: once by its own header, or by the keys written with dots below one header. -/

namespace CrowdPad.Toml

/-- How a table came about. -/
inductive Origin where
  /-- Only named on the way to a table of a longer header; a header of its own may follow. -/
  | implied
  /-- Opened by its header. -/
  | header
  /-- Made by keys with dots. -/
  | dotted
deriving Repr, BEq, DecidableEq

/-- What a key of a document stands for. -/
inductive Node where
  | value (v : Value)
  | table (origin : Origin) (entries : List (String × Node))
  | tables (items : List (List (String × Node)))
deriving Inhabited

abbrev Entries := List (String × Node)

/-- Replaces the node of a key that is there. -/
def replaceNode (key : String) (node : Node) (entries : Entries) : Entries :=
  entries.map fun entry => if entry.1 = key then (key, node) else entry

/-- Gives a key, which may have dots, its value. `owned` says whether the table at hand may take a
value itself: a table that only a header has implied may not. -/
def assign (owned : Bool) : List String → Value → Entries → Option Entries
  | [], _, _ => none
  | [key], v, entries =>
    if owned && (entries.lookup key).isNone then some (entries ++ [(key, .value v)]) else none
  | key :: path, v, entries =>
    match entries.lookup key with
    | none => do return entries ++ [(key, .table .dotted (← assign true path v []))]
    | some (.table .dotted inner) => do
      return replaceNode key (.table .dotted (← assign true path v inner)) entries
    | some (.table .implied inner) => do
      return replaceNode key (.table .implied (← assign false path v inner)) entries
    | some (.tables items) => do
      let last ← items.getLast?
      return replaceNode key (.tables (items.dropLast ++ [← assign false path v last])) entries
    | some _ => none

/-- Changes the table that a header names, the last one where the header names a list of tables. -/
def within (change : Entries → Option Entries) : List String → Entries → Option Entries
  | [], entries => change entries
  | key :: path, entries =>
    match entries.lookup key with
    | none => do return entries ++ [(key, .table .implied (← within change path []))]
    | some (.table origin inner) => do
      return replaceNode key (.table origin (← within change path inner)) entries
    | some (.tables items) => do
      let last ← items.getLast?
      return replaceNode key (.tables (items.dropLast ++ [← within change path last])) entries
    | some (.value _) => none

/-- Opens the table of a header. -/
def openTable (key : String) (entries : Entries) : Option Entries :=
  match entries.lookup key with
  | none => some (entries ++ [(key, .table .header [])])
  | some (.table .implied inner) => some (replaceNode key (.table .header inner) entries)
  | some _ => none

/-- Opens one more table of a list of tables. -/
def openItem (key : String) (entries : Entries) : Option Entries :=
  match entries.lookup key with
  | none => some (entries ++ [(key, .tables [[]])])
  | some (.tables items) => some (replaceNode key (.tables (items ++ [[]])) entries)
  | some _ => none

mutual

def Node.toValue : Node → Value
  | .value v => v
  | .table _ entries => .record (entriesFields entries)
  | .tables items => .list (itemsValues items)

def entriesFields : List (String × Node) → List (String × Value)
  | [] => []
  | (key, node) :: entries => (key, node.toValue) :: entriesFields entries

def itemsValues : List (List (String × Node)) → List Value
  | [] => []
  | entries :: items => .record (entriesFields entries) :: itemsValues items

end

end CrowdPad.Toml
