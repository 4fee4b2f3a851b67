import CrowdPad.Dispatch.Basic

/-! How long a worker waits before it tries to reach its server again. Waits are whole nanoseconds
and grow by a factor up to a ceiling. The product is taken with 53 significant bits, on the wait in
seconds, and rounded to the nearest nanosecond, a half to the even one. -/

namespace CrowdPad

/-- The settings of a worker whose inputs go over the network. -/
structure RemoteSettings where
  connectTimeoutMs : Nat := 3000
  ioTimeoutMs : Nat := 3000
  /-- The first wait, and the one after each success. -/
  initialBackoffMs : Nat := 1000
  backoffFactor : Decimal := ⟨11, -1⟩
  maxBackoffMs : Nat := 30000
  /-- Presses that are later than this are dropped with their release. -/
  stalenessMs : Nat := 2000
deriving Repr, DecidableEq, Inhabited

namespace Backoff

def nanosPerMilli : Nat := 1000000

def pow2 (e : Int) : Rat := if 0 ≤ e then (2 : Rat) ^ e.toNat else 1 / (2 : Rat) ^ e.natAbs

/-- The nearest integer, a half going to the even one. -/
def roundEven (q : Rat) : Int :=
  let below := q.floor
  let part := q - below
  if part < 1 / 2 then below
  else if 1 / 2 < part then below + 1
  else if below % 2 = 0 then below else below + 1

/-- The exponent of the greatest power of two that is not above a positive number. -/
def log2 (q : Rat) : Int :=
  let e : Int := q.num.natAbs.log2 - q.den.log2
  if pow2 e ≤ q then e else e - 1

/-- The nearest number of 53 significant bits, a half going to the even one. -/
def round53 (q : Rat) : Rat :=
  if q ≤ 0 then 0
  else
    let unit := pow2 (log2 q - 52)
    roundEven (q / unit) * unit

/-- The number that a decimal stands for. -/
def ratOf (d : Decimal) : Rat :=
  if 0 ≤ d.exponent then d.mantissa * (10 : Rat) ^ d.exponent.toNat
  else d.mantissa / (10 : Rat) ^ d.exponent.natAbs

/-- A wait in seconds. -/
def seconds (nanos : Nat) : Rat :=
  round53 (round53 (nanos / 1000000000 : Nat) +
    round53 ((nanos % 1000000000 : Nat) / (1000000000 : Rat)))

/-- A wait multiplied by a factor, of which what is below one counts as one. -/
def scale (factor : Decimal) (nanos : Nat) : Nat :=
  let factor := round53 (ratOf factor)
  let product := round53 ((if factor < 1 then 1 else factor) * seconds nanos)
  (roundEven (product * 1000000000)).toNat

end Backoff

namespace RemoteSettings

/-- The first wait, in nanoseconds. -/
def firstBackoff (s : RemoteSettings) : Nat := s.initialBackoffMs * Backoff.nanosPerMilli

/-- The wait behind another one, in nanoseconds. The ceiling comes behind the multiplication: a product of
2^64 s or more is no length of time, and a worker that came to it would end there. -/
def nextBackoff (s : RemoteSettings) (nanos : Nat) : Nat :=
  min (Backoff.scale s.backoffFactor nanos) (s.maxBackoffMs * Backoff.nanosPerMilli)

end RemoteSettings

end CrowdPad
