import CrowdPad.Edge

/-! Lanes. All edges of one batch on one key stand in one lane, in the order in which they are due,
and leave it in that order, so that no release overtakes its press. A lane that waits for a press
gives it up when its batch is cancelled, and later passes over the release of that press; a lane
that waits for the release of a press that has left it waits on, cancelled or not. -/

namespace CrowdPad

/-- What a lane does at one moment. -/
structure LaneWalk where
  /-- The edges that leave the lane. -/
  handed : List Edge := []
  /-- The edges that stay. -/
  rest : List Edge := []
  /-- The pairs whose press was given up and whose release is still in the lane. -/
  skipped : List Nat
  /-- The number of presses given up. -/
  suppressed : Nat := 0
deriving Repr, DecidableEq

/-- Walks along a lane for as long as its edges are due, or given up. -/
def walkLane (now : Time) (cancelled : Bool) (skipped : List Nat) : List Edge → LaneWalk
  | [] => { skipped }
  | e :: rest =>
    match e.transition with
    | .press =>
      if cancelled then
        let walk := walkLane now cancelled (e.pair :: skipped) rest
        { walk with suppressed := walk.suppressed + 1 }
      else if e.fireAt ≤ now then
        let walk := walkLane now cancelled skipped rest
        { walk with handed := e :: walk.handed }
      else { rest := e :: rest, skipped }
    | .release =>
      if skipped.contains e.pair then walkLane now cancelled (skipped.erase e.pair) rest
      else if e.fireAt ≤ now then
        let walk := walkLane now cancelled skipped rest
        { walk with handed := e :: walk.handed }
      else { rest := e :: rest, skipped }

/-- The edges of a batch on one key that are still to be walked. -/
structure Lane where
  batch : Nat
  edges : List Edge
  skipped : List Nat := []
deriving Repr, DecidableEq, Inhabited

namespace Lane

/-- What the lane does at a moment. -/
def walk (now : Time) (cancelled : Bool) (lane : Lane) : LaneWalk :=
  walkLane now cancelled lane.skipped lane.edges

def after (lane : Lane) (walk : LaneWalk) : Lane :=
  { lane with edges := walk.rest, skipped := walk.skipped }

/-- When the lane goes on by itself. -/
def due? (lane : Lane) : Option Time := lane.edges.head?.map (·.fireAt)

end Lane

end CrowdPad
