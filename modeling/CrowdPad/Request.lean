import CrowdPad.Command.Timing
import CrowdPad.Verb.Basic

/-! Requests: a verb with a delay and a duration that respect the bounds of the verb. -/

namespace CrowdPad

/-- A verb to be driven, timed from the reference time of its batch. -/
structure Request where
  verb : Verb
  delayMs : UInt32
  durationMs : UInt32
deriving Repr, DecidableEq, Inhabited

/-- Why timing is refused. -/
inductive TimingRejected where
  | negativeDelay (ms : Int)
  | negativeDuration (ms : Int)
deriving Repr, DecidableEq

def TimingRejected.message : TimingRejected → String
  | .negativeDelay ms => "negative delay " ++ toString ms ++ " ms"
  | .negativeDuration ms => "negative duration " ++ toString ms ++ " ms"

/-- The longest time of 32 bits. -/
def maxMillis : UInt32 := 0xFFFFFFFF

/-- A time of 32 bits; what does not fit is the longest one. -/
def saturate (ms : Int) : UInt32 :=
  if 0 ≤ ms && ms < UInt32.size then ms.toNat.toUInt32 else maxMillis

/-- A time of 64 bits with sign; what does not fit goes on from the other end. -/
def wrap64 (ms : Int) : Int := Int.bmod ms 18446744073709551616

theorem wrap64_eq_self {ms : Int} (low : -9223372036854775808 ≤ ms)
    (high : ms < 9223372036854775808) : wrap64 ms = ms := by
  unfold wrap64
  rw [Int.bmod_def]
  split <;> omega

/-- The duration granted to a request: toggles and delays at or past the ceiling have none, others
at least the minimum and at most what the ceiling leaves behind the delay. -/
def Verb.grant (v : Verb) (delayMs requestedMs : UInt32) : UInt32 :=
  if v.kind = .toggle || v.ceilingMs ≤ delayMs then 0
  else min (max requestedMs v.minMs) (v.ceilingMs - delayMs)

/-- The request that a timing makes of a verb. -/
def Timing.request (t : Timing) (v : Verb) : Except TimingRejected Request :=
  if t.delay < 0 then .error (.negativeDelay t.delay)
  else if t.duration.getD 0 < 0 then .error (.negativeDuration (t.duration.getD 0))
  else
    let requested := match t.duration with
      | some ms => saturate ms
      | none => v.defaultMs
    let delayMs := saturate t.delay
    .ok { verb := v, delayMs, durationMs := v.grant delayMs requested }

namespace Request

/-- When the key is released, counted from the reference time. -/
def releaseMs (r : Request) : Nat := r.delayMs.toNat + r.durationMs.toNat

def toValue (r : Request) : Value :=
  .record [("key", r.verb.toValue), ("delay_ms", .nat r.delayMs.toNat),
    ("duration_ms", .nat r.durationMs.toNat)]

end Request

def Timing.toValue (t : Timing) : Value :=
  .record [("delay_ms", .int t.delay), ("duration_ms", (t.duration.map Value.int).getD .null)]

def Value.toTiming? (v : Value) : Option Timing := do
  match ← v.toFields? ["delay_ms", "duration_ms"] with
  | [delay, duration] =>
    return { delay := ← required toInt64? delay, duration := ← optional toInt64? duration }
  | _ => none

end CrowdPad
