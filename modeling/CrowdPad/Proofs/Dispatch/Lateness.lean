import CrowdPad.Proofs.Dispatch.Written

/-! How late a press is written. Its age is looked at when an attempt begins, and the making of a
connection comes between that look and the writing. So a press that is written over a connection
that was there is not too old, and any other is too old by no more than the connection took. -/

namespace CrowdPad

namespace RemoteWorker

variable {w : RemoteWorker} {now time : Time} {a : Attempt} {e : Edge} {message : WireMessage}

/-- Whether an attempt finds the connection of earlier ones. -/
def isStanding (w : RemoteWorker) (a : Attempt) : Bool := w.connected && !a.lost

theorem start_of_write {leg : Leg} (h : (w.write now leg e).written = some (time, message)) :
    time = now := by
  rw [write] at h
  split at h
  · cases h
  · split at h
    · cases h
    · split at h
      · cases h
      · cases h
        rfl

/-- The writing begins at once where the connection is there, and else when it is made. -/
theorem start_of_attempt (h : (w.attempt now a e).written = some (time, message)) :
    if w.isStanding a then time = now
    else time = now + a.connecting.ms ∧ a.connecting.ms ≤ w.settings.connectTimeoutMs := by
  rw [attempt, send] at h
  change (if w.isStanding a then _ else _ : MoveResult).written = _ at h
  split at h
  · rename_i hstanding
    rw [if_pos hstanding]
    exact start_of_write h
  · rename_i hgone
    rw [if_neg hgone]
    split at h
    · cases h
    · rename_i hintime
      split at h
      · cases h
      · exact ⟨start_of_write h, Nat.not_lt.mp hintime⟩

theorem written_of_move (h : (w.move now a).written = some (time, message)) :
    ∃ e, w.current = some e ∧ w.isStale now e = false ∧
      (w.attempt now a e).written = some (time, message) := by
  cases hcurrent : w.current with
  | none =>
      cases hqueue : w.queue with
      | nil =>
          simp only [move, hcurrent, hqueue] at h
          cases h
      | cons e rest =>
          simp only [move, hcurrent, hqueue] at h
          cases h
  | some e =>
      cases hstale : w.isStale now e with
      | true =>
          simp only [move, hcurrent, hstale, if_true] at h
          cases h
      | false =>
          rw [move_of_fresh hcurrent hstale] at h
          exact ⟨e, rfl, hstale, h⟩

theorem lateMs_le_of_not_isStale (hfresh : w.isStale now e = false)
    (hpress : e.transition = .press) : lateMs now e ≤ w.settings.stalenessMs := by
  simpa [isStale, Edge.isPress, hpress] using hfresh

theorem lateMs_add (now : Time) (ms : Nat) (e : Edge) :
    lateMs (now + ms) e ≤ lateMs now e + ms := by
  rw [lateMs, lateMs]
  omega

end RemoteWorker

/-- The writing of an edge, with the attempt that comes to it. -/
structure Writing where
  edge : Edge
  /-- When the attempt began. -/
  began : Time
  attempt : Attempt
  /-- Whether the attempt found a connection. -/
  standing : Bool
  /-- When the writing itself began. -/
  start : Time
deriving Repr, DecidableEq

namespace Delivery

variable {target : Target} {settings : RemoteSettings} {d : Delivery}

/-- What a step writes. -/
def writingOf (d : Delivery) : RemoteStep → Option Writing
  | .handOver _ => none
  | .move now a =>
    if d.worker.isWaiting now then none
    else
      match d.worker.current, (d.worker.move now a).written with
      | some edge, some (start, _) =>
        some { edge, began := now, attempt := a, standing := d.worker.isStanding a, start }
      | _, _ => none

/-- What is written in the course of some steps. -/
def writings (d : Delivery) : List RemoteStep → List Writing
  | [] => []
  | σ :: rest => (d.writingOf σ).toList ++ (d.step σ).writings rest

theorem edges_step (d : Delivery) (σ : RemoteStep) :
    (d.step σ).edges = d.edges ++ ((d.writingOf σ).map (·.edge)).toList := by
  cases σ with
  | handOver e =>
      rcases d.step_handOver e with hsame | htaken
      · rw [hsame]
        exact (List.append_nil _).symm
      · rw [htaken]
        exact (List.append_nil _).symm
  | move now a =>
      rw [step, writingOf]
      split
      · exact (List.append_nil _).symm
      · rw [edges, behind, List.map_append]
        congr 1
        cases d.worker.current with
        | none => rfl
        | some e =>
            cases (d.worker.move now a).written with
            | none => rfl
            | some written => rfl

/-- Every edge that is written is among the writings, in order. -/
theorem edges_run (d : Delivery) (steps : List RemoteStep) :
    (d.run steps).edges = d.edges ++ (d.writings steps).map (·.edge) := by
  induction steps generalizing d with
  | nil => exact (List.append_nil _).symm
  | cons σ rest ih =>
      have hrun : d.run (σ :: rest) = (d.step σ).run rest := rfl
      rw [hrun, ih, edges_step, writings, List.map_append, List.append_assoc]
      cases d.writingOf σ with
      | none => rfl
      | some writing => rfl

/-- Whether a writing began as its attempt allows, and a press was not too old for the attempt. -/
structure Timely (settings : RemoteSettings) (wr : Writing) : Prop where
  fresh : wr.edge.transition = .press →
    RemoteWorker.lateMs wr.began wr.edge ≤ settings.stalenessMs
  standing : wr.standing → wr.start = wr.began
  connecting : ¬wr.standing → wr.start = wr.began + wr.attempt.connecting.ms ∧
    wr.attempt.connecting.ms ≤ settings.connectTimeoutMs

theorem timely_writingOf (hsettings : d.worker.settings = settings) {σ : RemoteStep} {wr : Writing}
    (h : d.writingOf σ = some wr) : Timely settings wr := by
  cases σ with
  | handOver e => cases h
  | move now a =>
      rw [writingOf] at h
      split at h
      · cases h
      · split at h
        · rename_i edge start message hcurrent hwritten
          cases h
          obtain ⟨e, he, hfresh, hattempt⟩ := RemoteWorker.written_of_move hwritten
          rw [hcurrent] at he
          cases he
          have hstart := RemoteWorker.start_of_attempt hattempt
          rw [hsettings] at hstart
          refine ⟨fun hpress => ?_, fun hstanding => ?_, fun hgone => ?_⟩
          · exact hsettings ▸ RemoteWorker.lateMs_le_of_not_isStale hfresh hpress
          · rwa [if_pos hstanding] at hstart
          · rwa [if_neg hgone] at hstart
        · cases h

theorem timely_writings (h : d.Booked target settings) (steps : List RemoteStep) :
    ∀ wr ∈ d.writings steps, Timely settings wr := by
  induction steps generalizing d with
  | nil => exact nofun
  | cons σ rest ih =>
      rw [writings, List.forall_mem_append]
      refine ⟨fun wr hwr => ?_, ih (h.step σ)⟩
      exact timely_writingOf h.sameSettings (Option.mem_toList.mp hwr)

/-- A press is too old at its writing by no more than the making of the connection takes. -/
theorem Timely.lateMs_start {wr : Writing} (h : Timely settings wr)
    (hpress : wr.edge.transition = .press) :
    (wr.standing → RemoteWorker.lateMs wr.start wr.edge ≤ settings.stalenessMs) ∧
      (¬wr.standing → wr.attempt.connecting.ms ≤ settings.connectTimeoutMs ∧
        RemoteWorker.lateMs wr.start wr.edge ≤
          settings.stalenessMs + wr.attempt.connecting.ms) := by
  have hfresh := h.fresh hpress
  constructor
  · intro hstanding
    rwa [h.standing hstanding]
  · intro hgone
    obtain ⟨hstart, hintime⟩ := h.connecting hgone
    refine ⟨hintime, ?_⟩
    rw [hstart]
    exact (RemoteWorker.lateMs_add ..).trans (Nat.add_le_add_right hfresh _)

/-- **Staleness.** Whatever the network does, a press is written no later than the staleness window
allows if its attempt finds a connection. If the attempt makes the connection first, the press may
be later by as long as that takes, which is no longer than a connection may take. A press that is
found too old when an attempt would begin is dropped. Where edges come in pairs, nothing of its pair
is written, and every other press is written or stays with the worker. -/
theorem lateness (target : Target) (settings : RemoteSettings) (steps : List RemoteStep)
    {d : Delivery} (hrun : (start target settings).run steps = d) :
    d.edges = ((start target settings).writings steps).map (·.edge) ∧
    (∀ wr ∈ (start target settings).writings steps, wr.edge.transition = .press →
      (wr.standing → RemoteWorker.lateMs wr.start wr.edge ≤ settings.stalenessMs) ∧
        (¬wr.standing → wr.attempt.connecting.ms ≤ settings.connectTimeoutMs ∧
          RemoteWorker.lateMs wr.start wr.edge ≤
            settings.stalenessMs + wr.attempt.connecting.ms)) ∧
    (∀ p ∈ d.overdue, p.2.transition = .press ∧
      settings.stalenessMs < RemoteWorker.lateMs p.1 p.2) ∧
    (InPairs d.handed →
      (∀ p ∈ d.overdue, ∀ e ∈ d.edges, e.pair ≠ p.2.pair) ∧
        ∀ press ∈ d.handed, press.transition = .press →
          press ∈ d.edges ∨ press ∈ d.worker.pending ∨ press ∈ d.overdue.map (·.2)) := by
  have hstart := start_booked target settings
  have hedges := (start target settings).edges_run steps
  subst hrun
  refine ⟨hedges, fun wr hwr => (timely_writings hstart steps wr hwr).lateMs_start,
    (hstart.run steps).old, fun hpairs => ?_⟩
  obtain ⟨done, hsettled⟩ := start_settled.run steps hpairs
  refine ⟨fun p hp e he hpair => hsettled.apart e he ⟨p, hp, hpair.symm⟩,
    fun press hpress hdown => ?_⟩
  rcases hsettled.mem_handed hpress with hworked | hpending
  · rcases hsettled.covered press hworked with hwritten | hoverdue | ⟨hup, -⟩
    · exact .inl hwritten
    · exact .inr (.inr hoverdue)
    · rw [hdown] at hup
      cases hup
  · exact .inr (.inl hpending)

/-- The edges of two taps, 2 s apart. -/
def twoTaps : List Edge :=
  [Timeline.tap.pressEdge 1 0 0, Timeline.tap.releaseEdge 1 0 0, Timeline.tap.pressEdge 2 1 2000,
    Timeline.tap.releaseEdge 2 1 2000]

/-- The taps are handed over together, and the connection takes half a second to make. -/
def tardy : List RemoteStep :=
  twoTaps.map .handOver ++
    [.move 2105 {}, .move 2105 {}, .move 2105 {}, .move 2105 {},
      .move 2105 { connecting := { ms := 500 } }, .move 2605 {}, .move 2605 {}]

/-- The first tap is dropped, and the press of the second one is written 600 ms late. -/
theorem lateness_of_taps :
    let d := (start { mode := .remote } {}).run tardy
    (∀ e ∈ d.edges, e.pair ≠ 0) ∧
      ∀ wr ∈ (start { mode := .remote } {}).writings tardy, wr.edge.transition = .press →
        RemoteWorker.lateMs wr.start wr.edge = 600 ∧
          RemoteWorker.lateMs wr.start wr.edge ≤ 2000 + wr.attempt.connecting.ms := by
  intro d
  have hdepartures : (Timeline.run {} [.schedule [Timeline.tap] 0, .schedule [Timeline.tap] 2000,
      .advance 2105]).departures.map (·.edge) = twoTaps := by cbv
  have hhanded : d.handed = twoTaps := by decide +kernel
  have hpairs : InPairs d.handed := hhanded ▸ hdepartures ▸ Timeline.inPairs_departures _
  obtain ⟨-, hlate, -, hdropped⟩ := lateness { mode := .remote } {} tardy (d := d) rfl
  have hoverdue : (2105, Timeline.tap.pressEdge 1 0 0) ∈ d.overdue := by decide +kernel
  have hwritings : (start { mode := .remote } {}).writings tardy = [
      { edge := Timeline.tap.pressEdge 2 1 2000, began := 2105, start := 2605, standing := false
        attempt := { connecting := { ms := 500 } } },
      { edge := Timeline.tap.releaseEdge 2 1 2000, began := 2605, start := 2605, standing := true
        attempt := {} }] := by
    decide +kernel
  refine ⟨(hdropped hpairs).1 _ hoverdue, fun wr hwr hpress => ?_⟩
  have hbound := hlate wr hwr hpress
  rw [hwritings] at hwr
  rcases List.mem_cons.mp hwr with rfl | hrelease
  · exact ⟨by decide +kernel, (hbound.2 (by simp)).2⟩
  · rw [List.mem_singleton.mp hrelease] at hpress
    cases hpress

/-- A press whose attempt begins in time is written when the connection is made, and is too old by
then. Of two presses of one pair that are dropped, one release is passed over and the other one is
written. -/
theorem stale_press_written :
    (∃ wr ∈ (start { mode := .remote } {}).writings
        [.handOver (Timeline.tap.pressEdge 1 0 0), .move 5 {},
          .move 5 { connecting := { ms := 2500 } }],
      wr.edge.transition = .press ∧
        wr.attempt.connecting.ms ≤ ({} : RemoteSettings).connectTimeoutMs ∧
        ({} : RemoteSettings).stalenessMs < RemoteWorker.lateMs wr.start wr.edge) ∧
    let d := (start { mode := .remote } {}).run
      ([Timeline.tap.pressEdge 1 0 0, Timeline.tap.pressEdge 1 0 0, Timeline.tap.releaseEdge 1 0 0,
          Timeline.tap.releaseEdge 1 0 0].map .handOver ++ List.replicate 7 (.move 3000 {}))
    d.overdue.map (·.2) = [Timeline.tap.pressEdge 1 0 0, Timeline.tap.pressEdge 1 0 0] ∧
      d.edges = [Timeline.tap.releaseEdge 1 0 0] := by
  decide +kernel

end Delivery

end CrowdPad
