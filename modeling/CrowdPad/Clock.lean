import CrowdPad.Edge

/-! Letting time pass. A system says what it does at a moment and when it goes on by itself; the
clock stops at these moments only. -/

namespace CrowdPad.Clock

variable {σ : Type}

/-- The next moment at which the clock stops, on the way to a goal. -/
def stop (now goal : Time) (next : Option Time) : Time := max (now + 1) (min goal (next.getD goal))

theorem lt_stop (now goal : Time) (next : Option Time) : now < stop now goal next :=
  Int.lt_of_lt_of_le (Int.lt_succ now) (Int.le_max_left _ _)

/-- Lets time pass until the system is done, or until the goal. What is due before the goal is
settled at its moment; what is due at the goal is not. -/
def wait (settle : Time → σ → σ) (next? : σ → Option Time) (done : σ → Bool) (goal now : Time)
    (s : σ) : Time × σ :=
  if done s || goal ≤ now then (now, s)
  else
    let s := settle now s
    if done s then (now, s)
    else wait settle next? done goal (stop now goal (next? s)) s
termination_by (goal - now).toNat
decreasing_by
  rename_i h _
  simp only [Bool.or_eq_true, decide_eq_true_eq, not_or] at h
  exact (Int.toNat_lt_toNat (Int.sub_pos_of_lt (Int.not_le.1 h.2))).2
    (Int.sub_lt_sub_left (lt_stop now goal _) goal)

/-- Lets time pass until the goal, and settles what is due then too. -/
def advance (settle : Time → σ → σ) (next? : σ → Option Time) (goal now : Time) (s : σ) : σ :=
  settle goal (wait settle next? (fun _ => false) goal now s).2

end CrowdPad.Clock
