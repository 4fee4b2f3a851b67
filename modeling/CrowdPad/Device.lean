import CrowdPad.Edge

/-! The device of this process. It keeps what it was made to do, and refuses the keys it lacks. -/

namespace CrowdPad

/-- An edge as a device takes it, with the time at which it did. -/
structure Input where
  time : Time
  player : Nat
  key : String
  transition : Transition
deriving Repr, DecidableEq, Inhabited

/-- A device. -/
structure Device where
  /-- The keys that it refuses. -/
  failing : List String := []
  /-- What it did, in order. -/
  inputs : List Input := []
deriving Repr, DecidableEq, Inhabited

namespace Device

/-- Why a device refuses a key. -/
def refusal (key : String) : String := key ++ " unavailable"

def apply (device : Device) (input : Input) : Except String Device :=
  if device.failing.contains input.key then .error (refusal input.key)
  else .ok { device with inputs := device.inputs ++ [input] }

/-- Applies an edge, or passes it over if the device refuses its key. -/
def applyIfAble (device : Device) (input : Input) : Device :=
  match device.apply input with
  | .ok device => device
  | .error _ => device

end Device

end CrowdPad
