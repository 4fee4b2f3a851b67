import CrowdPad.Data.Value

/-! Edges: a key of the device going down or up at a set time. Times are whole milliseconds from the
start of the process; an edge may have been due before it. -/

namespace CrowdPad

/-- A moment, in milliseconds from the start of the process. -/
abbrev Time := Int

/-- The direction of an edge. -/
inductive Transition where
  /-- The key goes down. -/
  | press
  /-- The key goes up. -/
  | release
deriving Repr, DecidableEq, Inhabited

def Transition.name : Transition → String
  | .press => "press"
  | .release => "release"

def Transition.names : List (String × Transition) := [("press", .press), ("release", .release)]

/-- A timed edge of a batch. A press and its release have one pair number. -/
structure Edge where
  batch : Nat
  pair : Nat
  fireAt : Time
  key : String
  verb : String
  transition : Transition
deriving Repr, DecidableEq, Inhabited

def Edge.isPress (e : Edge) : Bool := e.transition = .press

end CrowdPad
