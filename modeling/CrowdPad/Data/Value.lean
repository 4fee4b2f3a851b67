/-! Document values, the common ground of JSON text, TOML text, log metadata and event payloads.
Records keep their fields in the order in which they were written, repeated names included. -/

namespace CrowdPad

/-- The number `mantissa * 10 ^ exponent`, as written with a point or an exponent. -/
structure Decimal where
  mantissa : Int
  exponent : Int
deriving Repr, DecidableEq

/-- A value read from a document, or about to be written to one. `unreadable` stands for something
well-formed that no field can take: text that is not Unicode, a date, an infinite number. It is
accepted where a value is skipped and refused wherever one is used. -/
inductive Value where
  | null
  | bool (b : Bool)
  | int (n : Int)
  | real (d : Decimal)
  | text (s : String)
  | list (items : List Value)
  | record (fields : List (String × Value))
  | unreadable
deriving Repr, BEq, Inhabited

namespace Decimal

/-- How many places in front of the point the number takes; negative if zeros follow the point. -/
def places (d : Decimal) : Int := (Nat.toDigits 10 d.mantissa.natAbs).length + d.exponent

/-- Half a unit above the greatest double, and so the least number that no double is near. -/
def leastInfinite : Nat := Nat.pow 2 1024 - Nat.pow 2 970

/-- Whether a double is near the number. All but numbers of 309 places tell by their length. -/
def isFinite (d : Decimal) : Bool :=
  d.mantissa = 0 || d.places < 309 || d.places = 309 &&
    d.mantissa.natAbs * Nat.pow 10 d.exponent.toNat <
      leastInfinite * Nat.pow 10 (-d.exponent).toNat

/-- The number as a value of a document. What is too large for a double is `unreadable`, and what is
too small for one is zero. -/
def toValue (d : Decimal) : Value :=
  if !d.isFinite then .unreadable
  else if d.mantissa = 0 || d.places < -323 then .real ⟨0, 0⟩
  else .real d

end Decimal

namespace Value

def nat (n : Nat) : Value := .int n

/-- The value of text that may be absent. -/
def text? : Option String → Value
  | some s => .text s
  | none => .null

/-- The value of a number that may be absent. -/
def nat? : Option Nat → Value
  | some n => .nat n
  | none => .null

/-- The first field of a record with this name. -/
def field? (name : String) : Value → Option Value
  | .record fields => fields.lookup name
  | _ => none

mutual

/-- The same value with the fields of every record in the order of their names. -/
def sorted : Value → Value
  | .list items => .list (sortedItems items)
  | .record fields =>
    .record ((sortedFields fields).mergeSort fun left right => !(right.1 < left.1))
  | v => v

def sortedItems : List Value → List Value
  | [] => []
  | item :: items => sorted item :: sortedItems items

def sortedFields : List (String × Value) → List (String × Value)
  | [] => []
  | (name, value) :: fields => (name, sorted value) :: sortedFields fields

end

end Value

end CrowdPad
