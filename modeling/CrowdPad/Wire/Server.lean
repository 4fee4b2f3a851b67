import CrowdPad.Wire.Frame
import CrowdPad.Device
import CrowdPad.Text.Words

/-! The input server. It applies the edges that a client sends until the first thing it cannot read,
and then releases the keys that the client left pressed, so that a broken connection holds no key.
-/

namespace CrowdPad

/-- A key of a player. -/
abbrev HeldKey := UInt8 × String

/-- An edge that the server hands to its device. -/
structure ServedEdge where
  player : UInt8
  key : String
  transition : Transition
deriving Repr, DecidableEq, Inhabited

namespace InputServer

def isOwnHost (host : String) : Bool :=
  ["localhost", "0.0.0.0", "[::]", "[::1]"].contains host ||
    match (host.splitOn ".").map String.toList with
    | ['1', '2', '7'] :: rest =>
      rest.length == 3 && rest.all fun part => Text.isDigits part && Text.digitsValue part < 256
    | _ => false

/-- Whether an address can be listened on: this host, and behind the last colon a number of 16
bits. -/
def canListen (address : String) : Bool :=
  match (address.splitOn ":").reverse with
  | tcpPort :: host =>
    Text.isDigits tcpPort.toList && Text.digitsValue tcpPort.toList < UInt16.size &&
      isOwnHost (":".intercalate host.reverse)
  | [] => false

/-- The held keys behind a message. -/
def hold (held : List HeldKey) (m : WireMessage) : List HeldKey :=
  match m.transition with
  | .press => if held.contains (m.player, m.key) then held else held ++ [(m.player, m.key)]
  | .release => held.filter fun key => key != (m.player, m.key)

/-- What is handed to the device for what was read, and at the end of the connection. -/
def serveHolding (held : List HeldKey) : List WireResult → List ServedEdge
  | .ok m :: rest =>
    { player := m.player, key := m.key, transition := m.transition } ::
      serveHolding (hold held m) rest
  | _ => held.map fun (player, key) => { player, key, transition := .release }

/-- What is handed to the device for a connection that delivers these bytes. -/
def serve (pieces : List (List UInt8)) : List ServedEdge :=
  serveHolding [] (FrameReader.readAll {} pieces)

/-- A served edge as the device takes it. -/
def inputOf (now : Time) (e : ServedEdge) : Input :=
  { time := now, player := e.player.toNat, key := e.key, transition := e.transition }

/-- Applies the edges of a connection. A refused edge does not stop the others. -/
def apply (now : Time) (device : Device) (edges : List ServedEdge) : Device :=
  edges.foldl (fun device e => device.applyIfAble (inputOf now e)) device

end InputServer

end CrowdPad
