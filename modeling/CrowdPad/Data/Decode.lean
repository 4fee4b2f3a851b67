import CrowdPad.Data.Value

/-! Taking values apart. A structure is written as a record of its fields in any order, or as the
list of their values in declared order; fields it does not have are skipped, and a field given twice
is refused. Numbers have to be integers that fit. -/

namespace CrowdPad.Value

def toText? : Value → Option String
  | .text s => some s
  | _ => none

def toBool? : Value → Option Bool
  | .bool b => some b
  | _ => none

/-- A natural number below a bound. -/
def toNat? (bound : Nat) : Value → Option Nat
  | .int n => if 0 ≤ n && n < bound then some n.toNat else none
  | _ => none

def toNat8? : Value → Option Nat := toNat? UInt8.size

def toNat16? : Value → Option Nat := toNat? UInt16.size

def toNat32? : Value → Option Nat := toNat? UInt32.size

def toNat64? : Value → Option Nat := toNat? UInt64.size

def toInt64? : Value → Option Int
  | .int n => if -9223372036854775808 ≤ n && n < 9223372036854775808 then some n else none
  | _ => none

/-- A list whose items all have one kind. -/
def toList? {α : Type} (item : Value → Option α) : Value → Option (List α)
  | .list items => items.mapM item
  | _ => none

/-- The value of a field that may be `null`. -/
def toOption? {α : Type} (item : Value → Option α) : Value → Option (Option α)
  | .null => some none
  | v => (item v).map some

/-- Puts a named entry into an ordered map: at the end if the name is new, else in place of the
entry that has the name. -/
def putEntry {α : Type} (name : String) (item : α) : List (String × α) → List (String × α)
  | [] => [(name, item)]
  | (other, old) :: rest =>
    if other = name then (other, item) :: rest else (other, old) :: putEntry name item rest

/-- A map from names to items of one kind; of entries with one name the last counts, in the place of
the first. -/
def toMap? {α : Type} (item : Value → Option α) : Value → Option (List (String × α))
  | .record fields => do
    let entries ← fields.mapM fun field => (item field.2).map fun v => (field.1, v)
    return entries.foldl (fun map entry => putEntry entry.1 entry.2 map) []
  | _ => none

/-- The values of a structure's fields in declared order, `none` where a field is left out. -/
def toFields? (names : List String) : Value → Option (List (Option Value))
  | .record fields =>
    if names.all fun name => (fields.filter fun field => field.1 == name).length ≤ 1 then
      some (names.map fun name => fields.lookup name)
    else none
  | .list items =>
    if items.length ≤ names.length then
      some (items.map some ++ List.replicate (names.length - items.length) none)
    else none
  | _ => none

/-- One of the given names, written as text or as a record that gives the name `null`. -/
def toChoice? {α : Type} (choices : List (String × α)) : Value → Option α
  | .text name => choices.lookup name
  | .record [(name, .null)] => choices.lookup name
  | _ => none

/-- A field that has to be there. -/
def required {α : Type} (item : Value → Option α) : Option Value → Option α
  | some v => item v
  | none => none

/-- A field with a value for when it is left out. -/
def orDefault {α : Type} (default : α) (item : Value → Option α) : Option Value → Option α
  | some v => item v
  | none => some default

/-- A field that may be left out or `null`. -/
def optional {α : Type} (item : Value → Option α) : Option Value → Option (Option α) :=
  orDefault none (toOption? item)

end CrowdPad.Value
