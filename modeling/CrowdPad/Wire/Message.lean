import CrowdPad.Edge
import CrowdPad.Data.Decode
import CrowdPad.Data.Json.Printer
import CrowdPad.Data.Json.Reader

/-! Messages of the input server: one edge each, as JSON, with a version that both sides have to
agree on and a sequence number. -/

namespace CrowdPad

/-- The version of the messages that are written and understood. -/
def wireVersion : UInt8 := 1

/-- An edge on its way to an input server. -/
structure WireMessage where
  version : UInt8 := wireVersion
  player : UInt8
  key : String
  transition : Transition
  seq : UInt64
deriving Repr, DecidableEq, Inhabited

/-- Why a message cannot be written or read. -/
inductive WireError where
  | io (reason : String)
  | invalidPayload
  | unsupportedVersion (version : UInt8)
  | frameTooLarge (length : Nat)
  | truncated
deriving Repr, DecidableEq

def WireError.message : WireError → String
  | .io reason => "io: " ++ reason
  | .invalidPayload => "invalid payload: not a message"
  | .unsupportedVersion version => "unsupported wire version " ++ toString version.toNat
  | .frameTooLarge length => "frame of " ++ toString length ++ " bytes exceeds limit"
  | .truncated => "stream ended mid-frame"

def Value.toWireMessage? (v : Value) : Option WireMessage := do
  match ← v.toFields? ["v", "player_index", "key", "transition", "seq"] with
  | [version, player, key, transition, seq] =>
    return {
      version := (← required toNat8? version).toUInt8
      player := (← required toNat8? player).toUInt8
      key := ← required toText? key
      transition := ← required (toChoice? Transition.names) transition
      seq := (← required toNat64? seq).toUInt64 }
  | _ => none

namespace WireMessage

def toValue (m : WireMessage) : Value :=
  .record [("v", .nat m.version.toNat), ("player_index", .nat m.player.toNat),
    ("key", .text m.key), ("transition", .text m.transition.name), ("seq", .nat m.seq.toNat)]

/-- The bytes of a message. -/
def payload (m : WireMessage) : List UInt8 := Utf8.encode (Json.compact m.toValue)

/-- The message that some bytes stand for. -/
def ofPayload (bytes : List UInt8) : Except WireError WireMessage :=
  match (Json.readBytes bytes).bind Value.toWireMessage? with
  | none => .error .invalidPayload
  | some m => if m.version = wireVersion then .ok m else .error (.unsupportedVersion m.version)

end WireMessage

end CrowdPad
