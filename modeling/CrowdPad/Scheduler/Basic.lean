import CrowdPad.Scheduler.Lane
import CrowdPad.Request

/-! The scheduler of a team. A batch turns requests into edges timed from a reference time, one lane
for each key. Lanes are walked in the order in which they began to wait, and a batch is over once
all its lanes are walked to their end. -/

namespace CrowdPad

/-- What became of the edges of a batch. -/
structure Tally where
  presses : Nat := 0
  releases : Nat := 0
  /-- Presses given up after a cancellation, each with its release. -/
  suppressed : Nat := 0
  /-- Edges that were not taken. -/
  failed : Nat := 0
deriving Repr, DecidableEq, Inhabited

namespace Tally

/-- Counts a walk, whose edges were taken or not. -/
def addWalk (accepting : Bool) (t : Tally) (walk : LaneWalk) : Tally :=
  let presses := (walk.handed.filter Edge.isPress).length
  let releases := walk.handed.length - presses
  let t := { t with suppressed := t.suppressed + walk.suppressed }
  if accepting then { t with presses := t.presses + presses, releases := t.releases + releases }
  else { t with failed := t.failed + walk.handed.length }

end Tally

/-- A batch that is not over. -/
structure Batch where
  id : Nat
  /-- The number of its requests. -/
  requested : Nat
  cancelled : Bool := false
  tally : Tally := {}
deriving Repr, DecidableEq, Inhabited

def Batch.toValue (b : Batch) : Value :=
  .record [("batch_id", .nat b.id), ("requested", .nat b.requested),
    ("presses", .nat b.tally.presses), ("releases", .nat b.tally.releases),
    ("suppressed", .nat b.tally.suppressed), ("failed", .nat b.tally.failed)]

/-- The batches of a team and the lanes that still have edges. -/
structure Scheduler where
  batches : List Batch := []
  lanes : List Lane := []
  nextBatch : Nat := 1
  nextPair : Nat := 0
deriving Repr, DecidableEq, Inhabited

namespace Scheduler

/-- The press and the release of a request. -/
def edgesOf (batch pair : Nat) (reference : Time) (r : Request) : List Edge :=
  let edge (offset : Nat) (transition : Transition) : Edge :=
    { batch, pair, fireAt := reference + offset, key := r.verb.key, verb := r.verb.name
      transition }
  [edge r.delayMs.toNat .press, edge r.releaseMs .release]

/-- The edges of requests, numbered from the given pair on. -/
def batchEdges (batch : Nat) (reference : Time) (pair : Nat) : List Request → List Edge
  | [] => []
  | r :: rest => edgesOf batch pair reference r ++ batchEdges batch reference (pair + 1) rest

/-- The keys of some edges in alphabetical order. -/
def keysOf (edges : List Edge) : List String :=
  ((edges.map (·.key)).eraseDups).mergeSort fun left right => !(right < left)

/-- The lane of one key: edges due at one moment stay in the order of the requests, a press before
its release. -/
def laneOf (batch : Nat) (edges : List Edge) (key : String) : Lane :=
  { batch
    edges := (edges.filter fun e => e.key == key).mergeSort fun left right =>
      left.fireAt ≤ right.fireAt }

/-- Schedules requests whose delays count from a reference time. -/
def schedule (s : Scheduler) (requests : List Request) (reference : Time) : Scheduler × Nat :=
  let id := s.nextBatch
  let edges := batchEdges id reference s.nextPair requests
  ({ batches := s.batches ++ [{ id, requested := requests.length }]
     lanes := s.lanes ++ (keysOf edges).map (laneOf id edges)
     nextBatch := id + 1
     nextPair := s.nextPair + requests.length }, id)

def isActive (s : Scheduler) (id : Nat) : Bool := s.batches.any fun b => b.id == id

def activeBatches (s : Scheduler) : Nat := s.batches.length

/-- The number of edges neither handed over nor given up. -/
def pendingEdges (s : Scheduler) : Nat := (s.lanes.flatMap Lane.edges).length

/-- Cancels a batch: presses that are not due yet are given up. -/
def cancel (s : Scheduler) (id : Nat) : Scheduler :=
  { s with batches := s.batches.map fun b => if b.id = id then { b with cancelled := true } else b }

def cancelAll (s : Scheduler) : Scheduler :=
  { s with batches := s.batches.map fun b => { b with cancelled := true } }

/-- Whether a batch is cancelled. -/
def isCancelled (s : Scheduler) (id : Nat) : Bool :=
  s.batches.any fun b => b.id == id && b.cancelled

/-- What each lane does at a moment. -/
def walks (s : Scheduler) (now : Time) : List (Lane × LaneWalk) :=
  s.lanes.map fun lane => (lane, lane.walk now (s.isCancelled lane.batch))

/-- Walks every lane, and returns the edges that leave them. They count as failed where the worker
that should take them does not. Lanes that moved wait behind those that did not. -/
def tick (s : Scheduler) (now : Time) (accepting : Bool) : Scheduler × List Edge :=
  let walks := s.walks now
  let isStill (entry : Lane × LaneWalk) : Bool := entry.2.rest.length = entry.1.edges.length
  let still := (walks.filter isStill).map (·.1)
  let moved := (walks.filter fun entry => !isStill entry).map fun (lane, walk) => lane.after walk
  let count (b : Batch) : Batch :=
    { b with
      tally := (walks.filter fun entry => entry.1.batch == b.id).foldl
        (fun tally entry => tally.addWalk accepting entry.2) b.tally }
  ({ s with
      batches := s.batches.map count
      lanes := still ++ moved.filter fun lane => !lane.edges.isEmpty },
    walks.flatMap fun entry => entry.2.handed)

/-- Whether some edge of a batch is still in its lane. -/
def isWaiting (s : Scheduler) (b : Batch) : Bool := s.lanes.any fun lane => lane.batch == b.id

/-- Takes out the batches that are over, and returns them as they ended. -/
def retire (s : Scheduler) : Scheduler × List Batch :=
  ({ s with batches := s.batches.filter s.isWaiting }, s.batches.filter fun b => !s.isWaiting b)

/-- When the next lane goes on by itself. -/
def nextDue? (s : Scheduler) : Option Time := (s.lanes.filterMap Lane.due?).min?

end Scheduler

end CrowdPad
