import CrowdPad.Verb.Table
import CrowdPad.Data.Toml.Reader

/-! Profiles declared in a document, as a TOML file of their own or as part of the configuration. -/

namespace CrowdPad.Profile

/-- What a document says for all its verbs. -/
structure Defaults where
  durationMs : UInt32 := 50
  minMs : UInt32 := 1
  ceilingMs : UInt32 := defaultCeilingMs
deriving Repr, DecidableEq, Inhabited

/-- One verb of a document. -/
structure Entry where
  name : String
  key : String
  durationMs : Option UInt32 := none
  minMs : Option UInt32 := none
  ceilingMs : Option UInt32 := none
  kind : InputKind := .pressRelease
  synonyms : List String := []
  weight : Option UInt32 := none
deriving Repr, DecidableEq, Inhabited

/-- A declared profile. -/
structure Document where
  profile : String
  defaults : Defaults := {}
  entries : List Entry := []
deriving Repr, DecidableEq, Inhabited

def Entry.toValue (entry : Entry) : Value :=
  let millis? (ms : Option UInt32) : Value := .nat? (ms.map UInt32.toNat)
  .record [("name", .text entry.name), ("key", .text entry.key),
    ("duration_ms", millis? entry.durationMs), ("min_duration_ms", millis? entry.minMs),
    ("max_total_ms", millis? entry.ceilingMs), ("kind", .text entry.kind.name),
    ("aliases", .list (entry.synonyms.map .text)), ("random_weight", millis? entry.weight)]

def Document.toValue (doc : Document) : Value :=
  .record [("profile", .text doc.profile),
    ("defaults", .record [("duration_ms", .nat doc.defaults.durationMs.toNat),
      ("min_duration_ms", .nat doc.defaults.minMs.toNat),
      ("max_total_ms", .nat doc.defaults.ceilingMs.toNat)]),
    ("verbs", .list (doc.entries.map Entry.toValue))]

/-- The verb of an entry; a toggle has no duration of its own. -/
def Entry.toVerb (entry : Entry) (defaults : Defaults) : Verb where
  name := Text.lower entry.name
  key := entry.key
  defaultMs := match entry.kind with
    | .toggle => 0
    | .pressRelease => entry.durationMs.getD defaults.durationMs
  minMs := entry.minMs.getD defaults.minMs
  ceilingMs := entry.ceilingMs.getD defaults.ceilingMs
  kind := entry.kind

/-- Adds the declarations of an entry. -/
def Entry.declare (defaults : Defaults) (d : Declarations) (entry : Entry) : Declarations :=
  let d := d.addVerb (entry.toVerb defaults)
  let d := entry.synonyms.foldl (fun d synonym => d.addSynonym synonym entry.name) d
  match entry.weight with
  | some weight => d.addWeight entry.name weight
  | none => d

def Document.declarations (doc : Document) : Declarations :=
  doc.entries.foldl (Entry.declare doc.defaults) { profile := doc.profile }

def Document.toTable (doc : Document) : Except SetupError VerbTable := doc.declarations.build

end CrowdPad.Profile

namespace CrowdPad.Value

def toProfileDefaults? (v : Value) : Option Profile.Defaults := do
  match ← v.toFields? ["duration_ms", "min_duration_ms", "max_total_ms"] with
  | [durationMs, minMs, ceilingMs] =>
    let default : Profile.Defaults := {}
    return {
      durationMs := ← orDefault default.durationMs toMillis? durationMs
      minMs := ← orDefault default.minMs toMillis? minMs
      ceilingMs := ← orDefault default.ceilingMs toMillis? ceilingMs }
  | _ => none

def toProfileEntry? (v : Value) : Option Profile.Entry := do
  match ← v.toFields? ["name", "key", "duration_ms", "min_duration_ms", "max_total_ms", "kind",
      "aliases", "random_weight"] with
  | [name, key, durationMs, minMs, ceilingMs, kind, synonyms, weight] =>
    return {
      name := ← required toText? name
      key := ← required toText? key
      durationMs := ← optional toMillis? durationMs
      minMs := ← optional toMillis? minMs
      ceilingMs := ← optional toMillis? ceilingMs
      kind := ← orDefault .pressRelease toInputKind? kind
      synonyms := ← orDefault [] (toList? toText?) synonyms
      weight := ← optional toMillis? weight }
  | _ => none

def toProfile? (v : Value) : Option Profile.Document := do
  match ← v.toFields? ["profile", "defaults", "verbs"] with
  | [profile, defaults, entries] =>
    return {
      profile := ← required toText? profile
      defaults := ← orDefault {} toProfileDefaults? defaults
      entries := ← orDefault [] (toList? toProfileEntry?) entries }
  | _ => none

end CrowdPad.Value
