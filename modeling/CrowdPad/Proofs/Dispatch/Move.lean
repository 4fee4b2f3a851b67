import CrowdPad.Dispatch.Remote
import CrowdPad.Proofs.Wire.Writer

/-! What a worker does in one move. Every move is one of five: nothing is left to do, an edge is taken
off the queue or passed over there, a press is dropped for its age, an attempt fails, or an edge is
written. Two moves for each edge are enough, unless an attempt fails. -/

namespace CrowdPad

/-- Whether an attempt goes well, within the time that it is given. -/
structure Attempt.Succeeds (a : Attempt) (settings : RemoteSettings) : Prop where
  connects : a.connecting.fault = none
  connectsInTime : a.connecting.ms ≤ settings.connectTimeoutMs
  writes : a.writing.fault = none
  writesInTime : a.writing.ms ≤ settings.ioTimeoutMs

namespace RemoteWorker

variable {w : RemoteWorker} {now : Time} {e : Edge} {rest : List Edge}

theorem le_add_ms (time : Time) (ms : Nat) : time ≤ time + ms :=
  Int.le_add_of_nonneg_right (Int.natCast_nonneg ms)

theorem pending_of_current (hcurrent : w.current = some e) : w.pending = e :: w.queue := by
  rw [pending, hcurrent]
  rfl

/-- Only presses are dropped for their age. -/
theorem press_of_isStale (hstale : w.isStale now e) : e.transition = .press :=
  of_decide_eq_true (Bool.and_eq_true_iff.mp hstale).1

/-- What is left of a write. -/
def wrote (w : RemoteWorker) (e : Edge) (start finish : Time) : MoveResult :=
  { worker :=
      { w with
        current := none
        wakeAt := none
        seq := w.seq + 1
        backoff := w.settings.firstBackoff
        stats := { w.stats with delivered := w.stats.delivered + 1 } }
    finish
    written := some (start, w.messageOf e) }

/-! ### Attempts -/

/-- What an attempt comes to. -/
inductive Attempted (w : RemoteWorker) (now : Time) (e : Edge) : MoveResult → Prop where
  | failed (connected : Bool) {finish : Time} {error : DispatchError} (hlater : now ≤ finish) :
      Attempted w now e (fail { w with connected } finish e error)
  | written (connected : Bool) {start finish : Time} (hfits : (w.messageOf e).fits) :
      Attempted w now e (wrote { w with connected } e start finish)

theorem Attempted.of_connected {connected : Bool} {start : Time} {result : MoveResult}
    (hlater : now ≤ start) (h : Attempted { w with connected } start e result) :
    Attempted w now e result := by
  cases h with
  | failed connected hfinish => exact .failed connected (Int.le_trans hlater hfinish)
  | written connected hfits => exact .written connected hfits

theorem attempted_write (w : RemoteWorker) (start : Time) (leg : Leg) (e : Edge) :
    Attempted w start e (w.write start leg e) := by
  rw [write]
  by_cases hfits : (w.messageOf e).fits
  · rw [WireMessage.frame_of_fits hfits]
    dsimp only
    split
    · exact .failed w.connected (le_add_ms ..)
    · split
      · exact .failed w.connected (le_add_ms ..)
      · exact .written w.connected hfits
  · rw [WireMessage.frame_of_not_fits hfits]
    exact .failed w.connected (Int.le_refl start)

theorem attempted_send (w : RemoteWorker) (now : Time) (a : Attempt) (e : Edge) :
    Attempted w now e (w.send now a e) := by
  rw [send]
  split
  · exact attempted_write w now a.writing e
  · split
    · exact .failed w.connected (le_add_ms ..)
    · split
      · exact .failed w.connected (le_add_ms ..)
      · exact (attempted_write _ _ a.writing e).of_connected (le_add_ms ..)

theorem attempted_attempt (w : RemoteWorker) (now : Time) (a : Attempt) (e : Edge) :
    Attempted w now e (w.attempt now a e) :=
  (attempted_send _ now a e).of_connected (Int.le_refl now)

theorem write_of_succeeds {a : Attempt} (ha : a.Succeeds w.settings) (start : Time)
    (hfits : (w.messageOf e).fits) :
    w.write start a.writing e = w.wrote e start (start + a.writing.ms) := by
  rw [write, WireMessage.frame_of_fits hfits]
  dsimp only
  rw [if_neg (Nat.not_lt.mpr ha.writesInTime), ha.writes]
  rfl

theorem send_of_succeeds (now : Time) {a : Attempt} (ha : a.Succeeds w.settings)
    (hfits : (w.messageOf e).fits) :
    ∃ connected start finish, w.send now a e = wrote { w with connected } e start finish := by
  rw [send]
  split
  · exact ⟨w.connected, now, _, write_of_succeeds ha now hfits⟩
  · rw [if_neg (Nat.not_lt.mpr ha.connectsInTime), ha.connects]
    exact ⟨true, _, _, write_of_succeeds (w := { w with connected := true }) ha _ hfits⟩

/-- An attempt that goes well writes a message that goes into a frame. -/
theorem attempt_of_succeeds (now : Time) {a : Attempt} (ha : a.Succeeds w.settings)
    (hfits : (w.messageOf e).fits) :
    ∃ connected start finish, w.attempt now a e = wrote { w with connected } e start finish :=
  send_of_succeeds (w := { w with connected := w.connected && !a.lost }) now ha hfits

/-! ### Moves -/

/-- What a move comes to. -/
inductive Moved (w : RemoteWorker) (now : Time) : MoveResult → Prop where
  | idle (hcurrent : w.current = none) (hqueue : w.queue = []) :
      Moved w now { worker := w, finish := now }
  | passedOver {e : Edge} {rest : List Edge} (hcurrent : w.current = none)
      (hqueue : w.queue = e :: rest) (hrelease : e.transition = .release)
      (hdropped : e.pair ∈ w.dropped) :
      Moved w now {
        worker :=
          { w with
            queue := rest
            stats := { w.stats with queued := w.stats.queued - 1 }
            dropped := w.dropped.erase e.pair }
        finish := now }
  | taken {e : Edge} {rest : List Edge} (hcurrent : w.current = none)
      (hqueue : w.queue = e :: rest) (hkept : e.transition = .press ∨ e.pair ∉ w.dropped) :
      Moved w now {
        worker :=
          { w with
            queue := rest
            stats := { w.stats with queued := w.stats.queued - 1 }
            current := some e }
        finish := now }
  | overdue {e : Edge} (hcurrent : w.current = some e) (hstale : w.isStale now e) :
      Moved w now (w.dropStale now e)
  | attempted {e : Edge} {result : MoveResult} (hcurrent : w.current = some e)
      (hfresh : w.isStale now e = false) (hattempted : Attempted w now e result) :
      Moved w now result

theorem moved_take (hcurrent : w.current = none) (hqueue : w.queue = e :: rest) :
    Moved w now { worker := w.take e rest, finish := now } := by
  rw [take]
  by_cases hover : (!e.isPress && w.dropped.contains e.pair) = true
  · obtain ⟨hup, hdropped⟩ := Bool.and_eq_true_iff.mp hover
    have hrelease : e.transition = .release := by
      cases htransition : e.transition with
      | press => simp [Edge.isPress, htransition] at hup
      | release => rfl
    rw [if_pos hover]
    exact .passedOver hcurrent hqueue hrelease (List.contains_iff_mem.mp hdropped)
  · have hkept : e.transition = .press ∨ e.pair ∉ w.dropped := by
      simp only [Bool.and_eq_true, Bool.not_eq_true', not_and, List.contains_iff_mem] at hover
      cases htransition : e.transition with
      | press => exact .inl rfl
      | release => exact .inr (hover (by simp [Edge.isPress, htransition]))
    rw [if_neg hover]
    exact .taken hcurrent hqueue hkept

theorem moved_move (w : RemoteWorker) (now : Time) (a : Attempt) : Moved w now (w.move now a) := by
  cases hcurrent : w.current with
  | some e =>
      simp only [move, hcurrent]
      cases hstale : w.isStale now e with
      | true => exact .overdue hcurrent hstale
      | false => exact .attempted hcurrent hstale (attempted_attempt w now a e)
  | none =>
      cases hqueue : w.queue with
      | nil =>
          simp only [move, hcurrent, hqueue]
          exact .idle hcurrent hqueue
      | cons e rest =>
          simp only [move, hcurrent, hqueue]
          exact moved_take hcurrent hqueue

/-- How many moves the worker needs at most, if none of its attempts fails. -/
def toDo (w : RemoteWorker) : Nat := 2 * w.queue.length + w.current.toList.length

theorem toDo_le (w : RemoteWorker) : w.toDo ≤ 2 * w.pending.length := by
  rw [toDo, pending, List.length_append]
  omega

theorem pending_eq_nil (w : RemoteWorker) (hnone : w.toDo = 0) : w.pending = [] := by
  rw [toDo, Nat.add_eq_zero_iff, Nat.mul_eq_zero, List.length_eq_zero_iff] at hnone
  rw [pending, List.append_eq_nil_iff]
  exact ⟨List.length_eq_zero_iff.mp hnone.2, hnone.1.resolve_left (by decide)⟩

theorem lt_wakeTime (finish : Time) (nanos : Nat) : finish < wakeTime finish nanos := by
  have hpos : 0 < max 1 ((nanos + Backoff.nanosPerMilli - 1) / Backoff.nanosPerMilli) :=
    Nat.lt_of_lt_of_le Nat.one_pos (Nat.le_max_left ..)
  exact Int.lt_add_of_pos_right finish (Int.natCast_pos.mpr hpos)

/-- A move brings the worker closer to the end, unless an attempt fails and it has to wait. -/
theorem Moved.toDo_le {result : MoveResult} (h : Moved w now result) :
    result.worker.isWaiting now ∨ result.worker.toDo ≤ w.toDo - 1 := by
  cases h with
  | idle hcurrent hqueue =>
      right
      simp [toDo, hcurrent, hqueue]
  | passedOver hcurrent hqueue =>
      right
      simp only [toDo, hcurrent, hqueue, List.length_cons]
      omega
  | taken hcurrent hqueue =>
      right
      simp only [toDo, hcurrent, hqueue, List.length_cons, Option.toList_some, Option.toList_none,
        List.length_nil]
      omega
  | overdue hcurrent =>
      right
      simp [toDo, dropStale, hcurrent]
  | attempted hcurrent hfresh hattempted =>
      cases hattempted with
      | failed connected hlater =>
          exact .inl (decide_eq_true (Int.lt_of_le_of_lt hlater (lt_wakeTime ..)))
      | written connected hfits =>
          right
          simp [toDo, wrote, hcurrent]

theorem move_of_fresh {a : Attempt} (hcurrent : w.current = some e)
    (hfresh : w.isStale now e = false) : w.move now a = w.attempt now a e := by
  simp only [move, hcurrent, hfresh, Bool.false_eq_true, if_false]

end RemoteWorker

end CrowdPad
