import CrowdPad.Data.Decode

/-! Where a team's inputs go: to the device of this process, or over the network to the input server
of another one. -/

namespace CrowdPad

/-- Whether a target is served in this process. -/
inductive TargetMode where
  | here
  | remote
deriving Repr, DecidableEq, Inhabited

def TargetMode.names : List (String × TargetMode) := [("local", .here), ("remote", .remote)]

def TargetMode.name : TargetMode → String
  | .here => "local"
  | .remote => "remote"

/-- The destination of one team's inputs. -/
structure Target where
  mode : TargetMode := .here
  host : Option String := none
  tcpPort : Option Nat := none
  player : Nat := 0
deriving Repr, DecidableEq, Inhabited

def maxPlayer : Nat := 15

/-- Why a target is refused. -/
inductive TargetFault where
  | playerTooHigh (player : Nat)
  | hostMissing
  | portMissing
deriving Repr, DecidableEq

def TargetFault.message : TargetFault → String
  | .playerTooHigh player =>
    "player_index " ++ toString player ++ " exceeds " ++ toString maxPlayer
  | .hostMissing => "remote target needs a host"
  | .portMissing => "remote target needs a non-zero port"

namespace Target

/-- The first fault of a target. -/
def fault? (t : Target) : Option TargetFault :=
  if maxPlayer < t.player then some (.playerTooHigh t.player)
  else if t.mode = .remote then
    if t.host.getD "" = "" then some .hostMissing
    else if t.tcpPort.getD 0 = 0 then some .portMissing
    else none
  else none

/-- Where a remote target is reached. -/
def address? (t : Target) : Option String :=
  match t.mode, t.host, t.tcpPort with
  | .remote, some host, some tcpPort => some (host ++ ":" ++ toString tcpPort)
  | _, _, _ => none

/-- The target in words. -/
def describe (t : Target) : String :=
  match t.address? with
  | some address => "remote " ++ address ++ " player " ++ toString t.player
  | none => "local player " ++ toString t.player

def toValue (t : Target) : Value :=
  .record [("mode", .text t.mode.name), ("host", .text? t.host), ("port", .nat? t.tcpPort),
    ("player_index", .nat t.player)]

end Target

def Value.toTarget? (v : Value) : Option Target := do
  match ← v.toFields? ["mode", "host", "port", "player_index"] with
  | [mode, host, tcpPort, player] =>
    return {
      mode := ← orDefault .here (toChoice? TargetMode.names) mode
      host := ← optional toText? host
      tcpPort := ← optional toNat16? tcpPort
      player := ← orDefault 0 toNat8? player }
  | _ => none

end CrowdPad
