import CrowdPad.Text.Case
import CrowdPad.Text.Words
import CrowdPad.Data.Decode

/-! Verbs: the words a team's chat can use, each with the device key that it drives and the bounds
on how long the key may be held. All times are milliseconds of 32 bits. -/

namespace CrowdPad

/-- How a verb drives its key. -/
inductive InputKind where
  /-- Press, hold for the duration, release. -/
  | pressRelease
  /-- Press and release at once. -/
  | toggle
deriving Repr, DecidableEq, Inhabited

def InputKind.names : List (String × InputKind) :=
  [("press_release", .pressRelease), ("toggle", .toggle)]

def InputKind.name : InputKind → String
  | .pressRelease => "press_release"
  | .toggle => "toggle"

/-- The end of the last command a verb may take, where its declaration does not say. -/
def defaultCeilingMs : UInt32 := 1000

/-- A controllable verb. -/
structure Verb where
  name : String
  key : String
  defaultMs : UInt32
  minMs : UInt32 := 0
  /-- Bound on delay and duration together. -/
  ceilingMs : UInt32 := defaultCeilingMs
  kind : InputKind := .pressRelease
deriving Repr, DecidableEq, Inhabited

/-- What can be wrong with the declaration of a verb. -/
inductive VerbFault where
  | nameNotOneWord
  | keyEmpty
  | ceilingZero
  | minimumAboveCeiling
  | defaultAboveCeiling
deriving Repr, DecidableEq

def VerbFault.message : VerbFault → String
  | .nameNotOneWord => "name must be a single non-empty word"
  | .keyEmpty => "canonical key is empty"
  | .ceilingZero => "max_total_ms must be positive"
  | .minimumAboveCeiling => "min_duration_ms exceeds max_total_ms"
  | .defaultAboveCeiling => "default_duration_ms exceeds max_total_ms"

namespace Verb

def fault? (v : Verb) : Option VerbFault :=
  if v.name.isEmpty || v.name.toList.any Text.isBlank then some .nameNotOneWord
  else if v.key.isEmpty then some .keyEmpty
  else if v.ceilingMs = 0 then some .ceilingZero
  else if v.ceilingMs < v.minMs then some .minimumAboveCeiling
  else if v.ceilingMs < v.defaultMs then some .defaultAboveCeiling
  else none

def toValue (v : Verb) : Value :=
  .record [("name", .text v.name), ("canonical_key", .text v.key),
    ("default_duration_ms", .nat v.defaultMs.toNat), ("min_duration_ms", .nat v.minMs.toNat),
    ("max_total_ms", .nat v.ceilingMs.toNat), ("input_kind", .text v.kind.name)]

end Verb

namespace Value

def toMillis? (v : Value) : Option UInt32 := v.toNat32?.map Nat.toUInt32

def toInputKind? : Value → Option InputKind := toChoice? InputKind.names

def toVerb? (v : Value) : Option Verb := do
  match ← v.toFields? ["name", "canonical_key", "default_duration_ms", "min_duration_ms",
      "max_total_ms", "input_kind"] with
  | [name, key, defaultMs, minMs, ceilingMs, kind] =>
    return {
      name := ← required toText? name
      key := ← required toText? key
      defaultMs := ← required toMillis? defaultMs
      minMs := ← orDefault 0 toMillis? minMs
      ceilingMs := ← orDefault defaultCeilingMs toMillis? ceilingMs
      kind := ← orDefault .pressRelease toInputKind? kind }
  | _ => none

end Value

end CrowdPad
