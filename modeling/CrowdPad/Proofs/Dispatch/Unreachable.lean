import CrowdPad.Proofs.Dispatch.Agreement
import CrowdPad.Proofs.Dispatch.Lateness

/-! A server that cannot be reached. Where every connection is refused, the worker tries to write a press
until the press is too old, drops it, and passes over its release, so that it never begins with a release
and never stays with a press for good. What it reports on the way is told press by press. -/

namespace CrowdPad

/-- Whether the server refuses to be connected to, at once. -/
structure Attempt.IsRefused (a : Attempt) : Prop where
  atOnce : a.connecting.ms = 0
  faulty : a.connecting.fault.isSome

/-! ### Presses and releases in turn -/

/-- The pairs that are open behind an edge. A press opens its pair, and a release closes it. -/
def openAfter? (opened : List Nat) (e : Edge) : Option (List Nat) :=
  match e.transition with
  | .press => if e.pair ∈ opened then none else some (e.pair :: opened)
  | .release => if e.pair ∈ opened then some (opened.erase e.pair) else none

/-- The pairs that are open behind some edges. -/
def opened? (edges : List Edge) : Option (List Nat) := edges.foldlM openAfter? []

/-- Whether every press is of a pair that is not open, and every release of one that is. -/
def InTurn (edges : List Edge) : Prop := (opened? edges).isSome

section InTurn

variable {edges rest : List Edge} {e : Edge} {opened : List Nat}

theorem opened?_concat (h : opened? edges = some opened) :
    opened? (edges ++ [e]) = openAfter? opened e := by
  rw [opened?, List.foldlM_append, ← opened?, h]
  exact bind_pure (openAfter? opened e)

theorem InTurn.of_front {whole : List Edge} (h : InTurn whole) (hfront : edges <+: whole) :
    InTurn edges := by
  obtain ⟨rest, rfl⟩ := hfront
  obtain ⟨last, hlast⟩ := Option.isSome_iff_exists.mp h
  rw [opened?, List.foldlM_append] at hlast
  obtain ⟨opened, hopened, -⟩ := Option.bind_eq_some_iff.mp hlast
  exact Option.isSome_iff_exists.mpr ⟨opened, hopened⟩

/-- What comes next opens a pair that is not open, or closes one that is. -/
theorem InTurn.isSome_openAfter? (h : InTurn (edges ++ e :: rest)) (hopened : opened? edges = some opened) :
    (openAfter? opened e).isSome := by
  have hnext : InTurn (edges ++ [e]) := h.of_front ⟨rest, List.append_assoc ..⟩
  rwa [InTurn, opened?_concat hopened] at hnext

theorem openAfter?_press (hpress : e.transition = .press) (h : (openAfter? opened e).isSome) :
    e.pair ∉ opened ∧ openAfter? opened e = some (e.pair :: opened) := by
  simp only [openAfter?, hpress] at h ⊢
  split at h
  · cases h
  · rename_i hclosed
    exact ⟨hclosed, if_neg hclosed⟩

theorem openAfter?_release (hrelease : e.transition = .release) (h : (openAfter? opened e).isSome) :
    e.pair ∈ opened ∧ openAfter? opened e = some (opened.erase e.pair) := by
  simp only [openAfter?, hrelease] at h ⊢
  split at h
  · rename_i hopen
    exact ⟨hopen, if_pos hopen⟩
  · cases h

/-- Pairs that come one after the other, each as a press and its release, come in turn. -/
theorem inTurn_flatMap (pairs : List (Edge × Edge)) (h : ∀ p ∈ pairs,
    p.1.transition = .press ∧ p.2.transition = .release ∧ p.2.pair = p.1.pair) :
    InTurn (pairs.flatMap fun p => [p.1, p.2]) := by
  have hclosed : opened? (pairs.flatMap fun p => [p.1, p.2]) = some [] := by
    induction pairs with
    | nil => rfl
    | cons p rest ih =>
        obtain ⟨⟨hpress, hrelease, hpair⟩, hrest⟩ := List.forall_mem_cons.mp h
        rw [List.flatMap_cons, opened?, List.foldlM_append]
        have hboth : [p.1, p.2].foldlM openAfter? [] = some [] := by
          simp [openAfter?, hpress, hrelease, hpair]
        rw [hboth]
        exact ih hrest
  exact Option.isSome_iff_exists.mpr ⟨[], hclosed⟩

end InTurn

/-- The presses among some edges. -/
def presses (edges : List Edge) : List Edge := edges.filter Edge.isPress

theorem presses_append (edges rest : List Edge) :
    presses (edges ++ rest) = presses edges ++ presses rest :=
  List.filter_append ..

theorem presses_cons_press {e : Edge} (h : e.transition = .press) (rest : List Edge) :
    presses (e :: rest) = e :: presses rest :=
  List.filter_cons_of_pos (decide_eq_true h)

theorem presses_cons_release {e : Edge} (h : e.transition = .release) (rest : List Edge) :
    presses (e :: rest) = presses rest :=
  List.filter_cons_of_neg (by simp [Edge.isPress, h])

namespace RemoteWorker

variable {w : RemoteWorker} {now : Time} {a : Attempt} {e : Edge}

theorem pending_of_none {rest : List Edge} (hcurrent : w.current = none) (hqueue : w.queue = e :: rest) :
    w.pending = e :: rest := by
  rw [pending, hcurrent, hqueue]
  rfl

/-- A worker without a connection fails to make one. -/
theorem move_of_refused (hcurrent : w.current = some e) (hfresh : w.isStale now e = false)
    (hconnected : w.connected = false) (ha : a.IsRefused) :
    ∃ reason, w.move now a = w.fail now e (.connect w.address reason) := by
  obtain ⟨reason, hreason⟩ := Option.isSome_iff_exists.mp ha.faulty
  have hsame : { w with connected := w.connected && !a.lost } = w := by
    rw [hconnected, Bool.false_and, ← hconnected]
  refine ⟨reason, ?_⟩
  rw [move_of_fresh hcurrent hfresh, attempt, hsame, send, hconnected, ha.atOnce, hreason]
  simp

end RemoteWorker

/-! ### What becomes of a press -/

/-- A press that was dropped, with the refused attempts before it was. -/
structure Trial where
  press : Edge
  /-- When each attempt was made, and the reason that was given. -/
  refusals : List (Time × String)
  dropped : Time

namespace Trial

/-- The reports about refused attempts at a press. -/
def refused (target : Target) (press : Edge) (refusals : List (Time × String)) :
    List DispatchFailure :=
  refusals.map fun r => .of r.1 press (.connect (target.address?.getD "") r.2)

/-- The reports about a press that was dropped. The last of them says how late it was. -/
def reports (target : Target) (t : Trial) : List DispatchFailure :=
  refused target t.press t.refusals ++
    [.of t.dropped t.press (.stale t.press.key (RemoteWorker.lateMs t.dropped t.press))]

theorem countP_refused (target : Target) (press : Edge) (refusals : List (Time × String)) :
    (refused target press refusals).countP (·.kind = .connect) = refusals.length := by
  rw [refused, List.countP_map]
  exact List.countP_eq_length.mpr fun _ _ => rfl

theorem countP_reports (target : Target) (t : Trial) :
    (t.reports target).countP (·.kind = .connect) = t.refusals.length := by
  rw [reports, List.countP_append, countP_refused]
  rfl

/-- The reports about a press are reports about that edge. -/
theorem transition_of_mem_reports {target : Target} {t : Trial} {report : DispatchFailure}
    (h : report ∈ t.reports target) : report.transition = t.press.transition := by
  rcases List.mem_append.mp h with hrefused | hlast
  · obtain ⟨r, -, rfl⟩ := List.mem_map.mp hrefused
    rfl
  · rw [List.mem_singleton.mp hlast]
    rfl

/-- Whether a press was tried as long as it was not too old, and dropped when it was. -/
structure IsFair (settings : RemoteSettings) (t : Trial) : Prop where
  press : t.press.transition = .press
  young : ∀ r ∈ t.refusals, RemoteWorker.lateMs r.1 t.press ≤ settings.stalenessMs
  old : settings.stalenessMs < RemoteWorker.lateMs t.dropped t.press

end Trial

namespace Delivery

variable {target : Target} {settings : RemoteSettings} {d : Delivery} {now : Time} {a : Attempt}
  {e : Edge} {result : MoveResult} {trials : List Trial} {refusals : List (Time × String)}

/-- What a step reports. -/
def reportOf (d : Delivery) : RemoteStep → Option DispatchFailure
  | .handOver _ => none
  | .move now a => if d.worker.isWaiting now then none else (d.worker.move now a).failure

/-- What is reported in the course of some steps. -/
def reports (d : Delivery) (steps : List RemoteStep) : List DispatchFailure := d.gather reportOf steps

/-- The reports about presses that were dropped and about the one that the worker is trying to write. -/
def told (target : Target) (trials : List Trial) (current : Option Edge)
    (refusals : List (Time × String)) : List DispatchFailure :=
  trials.flatMap (Trial.reports target) ++
    current.toList.flatMap fun e => Trial.refused target e refusals

/-- What a worker that reaches no server has come to. All that is worked off are presses that were
dropped and their releases, and the pairs whose press was dropped are those that are still open. -/
structure Fruitless (target : Target) (settings : RemoteSettings) (d : Delivery) (trials : List Trial)
    (refusals : List (Time × String)) : Prop where
  booked : d.Booked target settings
  unconnected : d.worker.connected = false
  unwritten : d.written = []
  overdue : d.overdue = trials.map fun t => (t.dropped, t.press)
  failed : d.worker.stats.failed = (trials.flatMap (·.refusals)).length + refusals.length
  split : ∃ done, d.handed = done ++ d.worker.pending ∧ opened? done = some d.worker.dropped ∧
    presses done = trials.map (·.press)
  young : ∀ t ∈ trials, ∀ r ∈ t.refusals, RemoteWorker.lateMs r.1 t.press ≤ settings.stalenessMs
  trying : ∀ e, d.worker.current = some e →
    e.transition = .press ∧ ∀ r ∈ refusals, RemoteWorker.lateMs r.1 e ≤ settings.stalenessMs
  resting : d.worker.current = none → refusals = [] ∧ d.worker.wakeAt = none

theorem start_fruitless (target : Target) (settings : RemoteSettings) :
    (start target settings).Fruitless target settings [] [] where
  booked := start_booked target settings
  unconnected := rfl
  unwritten := rfl
  overdue := rfl
  failed := rfl
  split := ⟨[], rfl, rfl, rfl⟩
  young := nofun
  trying := nofun
  resting := fun _ => ⟨rfl, rfl⟩

section Step

variable (h : d.Fruitless target settings trials refusals)

include h

/-- The edge that the worker is trying to write is next in turn. -/
theorem Fruitless.isSome_openAfter? (hturn : InTurn d.handed) {rest : List Edge}
    (hpending : d.worker.pending = e :: rest) : (openAfter? d.worker.dropped e).isSome := by
  obtain ⟨done, hsplit, hopened, -⟩ := h.split
  rw [hsplit, hpending] at hturn
  exact hturn.isSome_openAfter? hopened

theorem Fruitless.handOver (e : Edge) :
    (d.step (.handOver e)).Fruitless target settings trials refusals := by
  have hbooked := h.booked.step (.handOver e)
  rcases d.step_handOver e with hsame | htaken
  · rwa [hsame]
  · rw [htaken] at hbooked ⊢
    obtain ⟨done, hsplit, hopened, hpresses⟩ := h.split
    refine ⟨hbooked, h.unconnected, h.unwritten, h.overdue, h.failed,
      ⟨done, ?_, hopened, hpresses⟩, h.young, h.trying, h.resting⟩
    rw [hsplit, RemoteWorker.pending, RemoteWorker.pending, List.append_assoc, List.append_assoc]

/-- A press that is too old makes one more trial, with the attempts that were refused before. -/
theorem Fruitless.drop (hturn : InTurn d.handed) (hcurrent : d.worker.current = some e)
    (hstale : d.worker.isStale now e) :
    (d.behind now (d.worker.dropStale now e)).Fruitless target settings
      (trials ++ [{ press := e, refusals, dropped := now }]) [] := by
  have hbooked := h.booked.behind (.overdue hcurrent hstale)
  rw [behind_overdue hcurrent hstale] at hbooked ⊢
  have hpending := RemoteWorker.pending_of_current hcurrent
  obtain ⟨done, hsplit, hopened, hpresses⟩ := h.split
  obtain ⟨hpress, hyoung⟩ := h.trying e hcurrent
  obtain ⟨hclosed, hnext⟩ := openAfter?_press hpress (h.isSome_openAfter? hturn hpending)
  refine ⟨hbooked, h.unconnected, h.unwritten, ?_, ?_, ⟨done ++ [e], ?_, ?_, ?_⟩, ?_, nofun,
    fun _ => ⟨rfl, rfl⟩⟩
  · rw [List.map_append, ← h.overdue]
    rfl
  · rw [List.flatMap_append, List.length_append]
    simpa [RemoteWorker.dropStale] using h.failed
  · rw [hsplit, hpending, List.append_assoc]
    rfl
  · rw [opened?_concat hopened, hnext]
    exact congrArg some (if_neg (mt List.contains_iff_mem.mp hclosed)).symm
  · rw [presses_append, presses_cons_press hpress, hpresses, List.map_append]
    rfl
  · rw [List.forall_mem_append, List.forall_mem_singleton]
    exact ⟨h.young, hyoung⟩

/-- A press stays with the worker when its attempt is refused. -/
theorem Fruitless.refuse (hcurrent : d.worker.current = some e) (hfresh : d.worker.isStale now e = false)
    (reason : String) :
    (d.behind now (d.worker.fail now e (.connect d.worker.address reason))).Fruitless target settings
      trials (refusals ++ [(now, reason)]) := by
  have hmoved : RemoteWorker.Moved d.worker now
      (d.worker.fail now e (.connect d.worker.address reason)) :=
    .attempted hcurrent hfresh (.failed d.worker.connected (Int.le_refl now))
  have hbooked := h.booked.behind hmoved
  rw [behind_failed hcurrent hfresh] at hbooked ⊢
  obtain ⟨done, hsplit, hopened, hpresses⟩ := h.split
  obtain ⟨hpress, hyoung⟩ := h.trying e hcurrent
  have hnow := RemoteWorker.lateMs_le_of_not_isStale hfresh hpress
  rw [h.booked.sameSettings] at hnow
  refine ⟨hbooked, rfl, h.unwritten, h.overdue, ?_, ⟨done, hsplit, hopened, hpresses⟩, h.young,
    ?_, ?_⟩
  · rw [List.length_append, ← Nat.add_assoc, ← h.failed]
    rfl
  · rintro other hother
    obtain rfl : e = other := Option.some.inj (hcurrent.symm.trans hother)
    rw [List.forall_mem_append, List.forall_mem_singleton]
    exact ⟨hpress, hyoung, hnow⟩
  · intro hnone
    cases hcurrent.symm.trans hnone

/-- What a refused move comes to is told by what it reports. -/
theorem Fruitless.move (now : Time) (hrefused : a.IsRefused) (hturn : InTurn d.handed) :
    ∃ trials' refusals',
    (d.behind now (d.worker.move now a)).Fruitless target settings trials' refusals' ∧
      told target trials' (d.worker.move now a).worker.current refusals' =
        told target trials d.worker.current refusals ++
          (d.worker.move now a).failure.toList := by
  obtain ⟨done, hsplit, hopened, hpresses⟩ := h.split
  have hmoved := RemoteWorker.moved_move d.worker now a
  have hbooked := h.booked.behind hmoved
  generalize hresult : d.worker.move now a = result at hmoved hbooked ⊢
  cases hmoved with
  | idle hcurrent hqueue =>
      rw [behind_of_none hcurrent]
      exact ⟨trials, refusals, h, (List.append_nil _).symm⟩
  | @passedOver e rest hcurrent hqueue hrelease hdropped =>
      rw [behind_of_none hcurrent] at hbooked ⊢
      have hpending := RemoteWorker.pending_of_none hcurrent hqueue
      have hnext := openAfter?_release hrelease (h.isSome_openAfter? hturn hpending)
      refine ⟨trials, refusals, ⟨hbooked, h.unconnected, h.unwritten, h.overdue, h.failed,
        ⟨done ++ [e], ?_, ?_, ?_⟩, h.young, h.trying, h.resting⟩, (List.append_nil _).symm⟩
      · rw [hsplit, hpending, List.append_assoc, RemoteWorker.pending, hcurrent]
        rfl
      · rw [opened?_concat hopened, hnext.2]
      · rw [presses_append, presses_cons_release hrelease, hpresses]
        exact List.append_nil _
  | @taken e rest hcurrent hqueue hkept =>
      rw [behind_of_none hcurrent] at hbooked ⊢
      have hpending := RemoteWorker.pending_of_none hcurrent hqueue
      have hsome := h.isSome_openAfter? hturn hpending
      -- A release that is next in turn is one of a dropped press, and those are passed over.
      have hpress : e.transition = .press := by
        cases htransition : e.transition with
        | press => rfl
        | release =>
            have hopen := (openAfter?_release htransition hsome).1
            exact absurd hopen (hkept.resolve_left (by rw [htransition]; decide))
      obtain ⟨rfl, hready⟩ := h.resting hcurrent
      refine ⟨trials, [], ⟨hbooked, h.unconnected, h.unwritten, h.overdue, h.failed,
        ⟨done, ?_, hopened, hpresses⟩, h.young, ?_, ?_⟩, ?_⟩
      · rw [hsplit, hpending]
        rfl
      · rintro _ ⟨⟩
        exact ⟨hpress, fun r hr => absurd hr List.not_mem_nil⟩
      · intro hnone
        cases hnone
      · simp [told, hcurrent, Trial.refused]
  | @overdue e hcurrent hstale =>
      refine ⟨_, _, h.drop hturn hcurrent hstale, ?_⟩
      simp [told, hcurrent, Trial.reports, RemoteWorker.dropStale]
  | @attempted e result hcurrent hfresh hattempted =>
      obtain ⟨reason, hfail⟩ :=
        RemoteWorker.move_of_refused hcurrent hfresh h.unconnected hrefused
      obtain rfl : d.worker.fail now e (.connect d.worker.address reason) = result :=
        hfail.symm.trans hresult
      refine ⟨_, _, h.refuse hcurrent hfresh reason, ?_⟩
      simp [told, hcurrent, Trial.refused, RemoteWorker.fail, RemoteWorker.address,
        h.booked.sameTarget]

theorem Fruitless.step {σ : RemoteStep} (hrefused : ∀ now a, σ = .move now a → a.IsRefused)
    (hturn : InTurn (d.step σ).handed) : ∃ trials' refusals',
    (d.step σ).Fruitless target settings trials' refusals' ∧
      told target trials' (d.step σ).worker.current refusals' =
        told target trials d.worker.current refusals ++ (d.reportOf σ).toList := by
  cases σ with
  | handOver e =>
      refine ⟨trials, refusals, h.handOver e, ?_⟩
      rw [reportOf, Option.toList_none, List.append_nil]
      rcases d.step_handOver e with hsame | htaken
      · rw [hsame]
      · rw [htaken]
  | move now a =>
      rw [Delivery.step] at hturn ⊢
      rw [reportOf]
      split
      · exact ⟨trials, refusals, h, (List.append_nil _).symm⟩
      · rename_i hready
        rw [if_neg hready] at hturn
        exact h.move now (hrefused now a rfl) hturn

end Step

/-- **What is told of a run.** Where every connection is refused, what the worker has come to is told by
what it has reported. -/
theorem Fruitless.run (h : d.Fruitless target settings trials refusals) {steps : List RemoteStep}
    (hrefused : ∀ now a, .move now a ∈ steps → a.IsRefused) (hturn : InTurn (d.run steps).handed) :
    ∃ trials' refusals', (d.run steps).Fruitless target settings trials' refusals' ∧
      told target trials' (d.run steps).worker.current refusals' =
        told target trials d.worker.current refusals ++ d.reports steps := by
  induction steps generalizing d trials refusals with
  | nil => exact ⟨trials, refusals, h, (List.append_nil _).symm⟩
  | cons σ rest ih =>
      obtain ⟨trials', refusals', hstep, htold⟩ := h.step
        (fun now a hσ => hrefused now a (hσ ▸ List.mem_cons_self ..))
        (hturn.of_front ((d.step σ).handed_run rest))
      obtain ⟨trials'', refusals'', hrun, htold'⟩ := ih hstep
        (fun now a ha => hrefused now a (List.mem_cons_of_mem _ ha)) hturn
      refine ⟨trials'', refusals'', hrun, ?_⟩
      rw [reports, gather, ← List.append_assoc, ← htold]
      exact htold'

end Delivery

/-! ### How long it takes -/

namespace RemoteWorker

variable {w : RemoteWorker} {first now : Time}

/-- For how many milliseconds, from a moment on, an edge is not yet too old. -/
def window (settings : RemoteSettings) (first : Time) (e : Edge) : Nat :=
  (e.fireAt + settings.stalenessMs + 1 - first).toNat

/-- How many moves are enough for some edges where every connection is refused: for each edge one to take
it, one to drop it, and as many attempts as it has milliseconds. -/
def enough (settings : RemoteSettings) (first : Time) (edges : List Edge) : Nat :=
  (edges.map fun e => 2 + window settings first e).sum

/-- When the worker may make its next move, from a moment on. -/
def nextTime (w : RemoteWorker) (first : Time) : Time := max first (w.wakeAt.getD first)

/-- How many moves the worker has left at most where every connection is refused. -/
def movesLeft (w : RemoteWorker) (first : Time) : Nat :=
  enough w.settings first w.queue +
    (w.current.map fun e => 1 + window w.settings (w.nextTime first) e).getD 0

theorem window_le {settings : RemoteSettings} {e : Edge} {later : Int} (h : first ≤ later) :
    window settings later e ≤ window settings first e :=
  Int.toNat_le_toNat (Int.sub_le_sub_left h _)

/-- An edge that is not too old at a moment has a millisecond less after it. -/
theorem window_lt {settings : RemoteSettings} {e : Edge} {first now later : Int} (hfirst : first ≤ now)
    (hyoung : lateMs now e ≤ settings.stalenessMs) (hlater : now < later) :
    window settings later e < window settings first e := by
  rw [lateMs] at hyoung
  rw [window, window]
  omega

theorem movesLeft_le (w : RemoteWorker) (first : Time) :
    w.movesLeft first ≤ enough w.settings first w.pending := by
  rw [movesLeft, pending]
  cases w.current with
  | none => simp
  | some e =>
      have hless : window w.settings (w.nextTime first) e ≤ window w.settings first e :=
        window_le (Int.le_max_left ..)
      simp only [Option.map_some, Option.getD_some, Option.toList_some, List.singleton_append, enough,
        List.map_cons, List.sum_cons]
      omega

theorem pending_of_movesLeft (hnone : w.movesLeft first = 0) : w.pending = [] := by
  rw [movesLeft, Nat.add_eq_zero_iff] at hnone
  obtain ⟨hqueue, hcurrent⟩ := hnone
  rw [pending]
  cases hcase : w.current with
  | some e => simp [hcase] at hcurrent
  | none =>
      cases hlist : w.queue with
      | nil => rfl
      | cons e rest => simp [hlist, enough] at hqueue

theorem isWaiting_nextTime (w : RemoteWorker) (first : Time) : w.isWaiting (w.nextTime first) = false := by
  rw [isWaiting, nextTime]
  cases w.wakeAt with
  | none => rfl
  | some time => exact decide_eq_false (Int.not_lt.mpr (Int.le_max_right first time))

theorem nextTime_le (hready : w.isWaiting now = false) (hfirst : first ≤ now) :
    w.nextTime first ≤ now := by
  rw [nextTime]
  refine Int.max_le.mpr ⟨hfirst, ?_⟩
  rw [isWaiting] at hready
  cases hwake : w.wakeAt with
  | none => exact hfirst
  | some time =>
      rw [hwake] at hready
      exact Int.not_lt.mp (of_decide_eq_false hready)

/-- A move leaves fewer moves, unless it is a failed attempt at a release. An attempt at a press takes at
least a millisecond of what the press has left, because the worker waits after it. -/
theorem Moved.movesLeft_le {result : MoveResult} (hmoved : Moved w now result)
    (hrested : w.current = none → w.wakeAt = none) (hready : w.isWaiting now = false)
    (hfirst : first ≤ now) :
    result.worker.movesLeft first ≤ w.movesLeft first - 1 ∨
      ∃ e connected finish error, w.current = some e ∧ e.transition = .release ∧
        result = fail { w with connected } finish e error := by
  cases hmoved with
  | idle hcurrent hqueue =>
      left
      simp [movesLeft, enough, hcurrent, hqueue]
  | passedOver hcurrent hqueue =>
      left
      simp only [movesLeft, enough, hcurrent, hqueue, List.map_cons, List.sum_cons, Option.map_none,
        Option.getD_none]
      omega
  | taken hcurrent hqueue =>
      left
      have hnext : w.nextTime first = first := by
        rw [nextTime, hrested hcurrent]
        exact max_self first
      simp only [nextTime] at hnext
      simp only [movesLeft, enough, nextTime, hcurrent, hqueue, hnext, List.map_cons, List.sum_cons,
        Option.map_none, Option.map_some, Option.getD_none, Option.getD_some]
      omega
  | overdue hcurrent hstale =>
      left
      simp only [movesLeft, dropStale, hcurrent, Option.map_none, Option.map_some, Option.getD_none,
        Option.getD_some]
      omega
  | @attempted e result hcurrent hfresh hattempted =>
      cases hattempted with
      | written connected hfits =>
          left
          simp only [movesLeft, wrote, hcurrent, Option.map_none, Option.map_some, Option.getD_none,
            Option.getD_some]
          omega
      | @failed connected finish error hlater =>
          cases htransition : e.transition with
          | release => exact .inr ⟨e, connected, finish, error, hcurrent, htransition, rfl⟩
          | press =>
              left
              have hless : window w.settings
                    ((fail { w with connected } finish e error).worker.nextTime first) e <
                  window w.settings (w.nextTime first) e := by
                refine window_lt (nextTime_le hready hfirst)
                  (lateMs_le_of_not_isStale hfresh htransition) ?_
                exact Int.lt_of_lt_of_le (Int.lt_of_le_of_lt hlater (lt_wakeTime ..))
                  (Int.le_max_right ..)
              simp only [movesLeft, fail, hcurrent, Option.map_some, Option.getD_some] at hless ⊢
              omega

end RemoteWorker

namespace Delivery

variable {target : Target} {settings : RemoteSettings} {d : Delivery} {first now : Time} {a : Attempt}
  {trials : List Trial} {refusals : List (Time × String)} {made : List (Time × Attempt)}

/-- Whether the worker never waits when one of these moves is made. -/
def Due (d : Delivery) : List (Time × Attempt) → Prop
  | [] => True
  | m :: rest => d.worker.isWaiting m.1 = false ∧ (d.step (.move m.1 m.2)).Due rest

/-- A worker that never begins with a release leaves fewer moves with each one. -/
theorem Fruitless.movesLeft_move (h : d.Fruitless target settings trials refusals) (a : Attempt)
    (hready : d.worker.isWaiting now = false) (hfirst : first ≤ now) :
    (d.worker.move now a).worker.movesLeft first ≤ d.worker.movesLeft first - 1 := by
  have hmoved := RemoteWorker.moved_move d.worker now a
  rcases hmoved.movesLeft_le (fun hnone => (h.resting hnone).2) hready hfirst with
    hless | ⟨e, connected, finish, error, hcurrent, hrelease, -⟩
  · exact hless
  · have hpress := (h.trying e hcurrent).1
    rw [hrelease] at hpress
    cases hpress

theorem Fruitless.movesLeft_moves (h : d.Fruitless target settings trials refusals)
    (hturn : InTurn d.handed) (hdue : d.Due made)
    (hrefused : ∀ m ∈ made, first ≤ m.1 ∧ m.2.IsRefused) :
    (d.moves made).worker.movesLeft first ≤ d.worker.movesLeft first - made.length := by
  induction made generalizing d trials refusals with
  | nil => exact Nat.le_refl _
  | cons m rest ih =>
      obtain ⟨hready, hrest⟩ := hdue
      obtain ⟨⟨hfirst, hnow⟩, hlater⟩ := List.forall_mem_cons.mp hrefused
      have hstep := step_move m.2 hready
      have hless := h.movesLeft_move m.2 hready hfirst
      obtain ⟨trials', refusals', hnext, -⟩ := h.move m.1 hnow hturn
      rw [hstep] at hrest
      have hmore := ih hnext hturn hrest hlater
      have hmoves : d.moves (m :: rest) = (d.behind m.1 (d.worker.move m.1 m.2)).moves rest := by
        rw [← hstep]
        rfl
      have hworker : (d.behind m.1 (d.worker.move m.1 m.2)).worker = (d.worker.move m.1 m.2).worker :=
        rfl
      rw [hworker] at hmore
      rw [hmoves, List.length_cons]
      omega

/-- Time always comes for one more move, whatever the attempts are. -/
theorem exists_made (d : Delivery) (a : Attempt) (first : Time) (count : Nat) :
    ∃ made : List (Time × Attempt),
      made.length = count ∧ d.Due made ∧ ∀ m ∈ made, first ≤ m.1 ∧ m.2 = a := by
  induction count generalizing d with
  | zero => exact ⟨[], rfl, trivial, nofun⟩
  | succ count ih =>
      obtain ⟨made, hlength, hdue, hmade⟩ := ih (d.step (.move (d.worker.nextTime first) a))
      refine ⟨(d.worker.nextTime first, a) :: made, congrArg (· + 1) hlength,
        ⟨d.worker.isWaiting_nextTime first, hdue⟩, ?_⟩
      rw [List.forall_mem_cons]
      exact ⟨⟨Int.le_max_left .., rfl⟩, hmade⟩

/-- Time always comes for one more refused move. -/
theorem exists_due (d : Delivery) (first : Time) (count : Nat) : ∃ made : List (Time × Attempt),
    made.length = count ∧ d.Due made ∧ ∀ m ∈ made, first ≤ m.1 ∧ m.2.IsRefused := by
  obtain ⟨made, hlength, hdue, hmade⟩ := d.exists_made .refused first count
  refine ⟨made, hlength, hdue, fun m hm => ⟨(hmade m hm).1, ?_⟩⟩
  rw [(hmade m hm).2]
  exact ⟨rfl, rfl⟩

section Told

variable (h : d.Fruitless target settings trials refusals)

include h

theorem Fruitless.isFair : ∀ t ∈ trials, t.IsFair settings := by
  intro t ht
  have hmem : (t.dropped, t.press) ∈ d.overdue := h.overdue ▸ List.mem_map_of_mem ht
  obtain ⟨hpress, hold⟩ := h.booked.old _ hmem
  exact ⟨hpress, h.young t ht, hold⟩

theorem Fruitless.presses_handed :
    presses d.handed = trials.map (·.press) ++ presses d.worker.pending := by
  obtain ⟨done, hsplit, -, hpresses⟩ := h.split
  rw [hsplit, presses_append, hpresses]

theorem Fruitless.countP_told :
    (told target trials d.worker.current refusals).countP (·.kind = .connect) =
      d.worker.stats.failed := by
  have htrials : (trials.flatMap (Trial.reports target)).countP (·.kind = .connect) =
      (trials.flatMap (·.refusals)).length := by
    rw [List.countP_flatMap, List.length_flatMap]
    exact congrArg List.sum (List.map_congr_left fun t _ => t.countP_reports target)
  rw [told, List.countP_append, htrials, h.failed]
  congr 1
  cases hcurrent : d.worker.current with
  | none =>
      rw [(h.resting hcurrent).1]
      rfl
  | some e =>
      rw [Option.toList_some, List.flatMap_singleton]
      exact Trial.countP_refused target e refusals

/-- Nothing is ever reported about a release. -/
theorem Fruitless.press_of_mem_told {report : DispatchFailure}
    (hmem : report ∈ told target trials d.worker.current refusals) : report.transition = .press := by
  rcases List.mem_append.mp hmem with hdropped | hcurrent
  · obtain ⟨t, ht, hreport⟩ := List.mem_flatMap.mp hdropped
    exact (Trial.transition_of_mem_reports hreport).trans (h.isFair t ht).press
  · obtain ⟨e, he, hreport⟩ := List.mem_flatMap.mp hcurrent
    obtain ⟨r, -, rfl⟩ := List.mem_map.mp hreport
    exact (h.trying e (Option.mem_toList.mp he)).1

end Told

/-- **No server.** Where presses and releases are handed over in turn and every connection is refused at
once, the reports tell of each press in order that it was tried while it was not too old, was refused each
time, and was dropped when it was too old; nothing is written, and no release is tried or reported. The
counters are the numbers of refused connections and of dropped presses. However far the worker has come, a
number of moves is enough to work off all it has, and time always comes for one more of them. -/
theorem unreachable (target : Target) (settings : RemoteSettings) (steps : List RemoteStep)
    {d : Delivery} (hrun : (start target settings).run steps = d)
    (hrefused : ∀ now a, .move now a ∈ steps → a.IsRefused) (hturn : InTurn d.handed) :
    let reports := (start target settings).reports steps
    (∃ trials refusals,
      reports = told target trials d.worker.current refusals ∧
      (∀ t ∈ trials, t.IsFair settings) ∧
      presses d.handed = trials.map (·.press) ++ presses d.worker.pending ∧
      d.worker.stats.staleDropped = trials.length ∧
      (d.worker.pending = [] → reports = trials.flatMap (Trial.reports target) ∧
        presses d.handed = trials.map (·.press))) ∧
    d.written = [] ∧ d.worker.stats.delivered = 0 ∧
    d.worker.stats.failed = reports.countP (·.kind = .connect) ∧
    (∀ report ∈ reports, report.transition = .press) ∧
    (∀ e, d.worker.current = some e → e.transition = .press) ∧
    (∀ first made, d.Due made → (∀ m ∈ made, first ≤ m.1 ∧ m.2.IsRefused) →
      RemoteWorker.enough settings first d.worker.pending ≤ made.length →
        (d.moves made).worker.pending = []) ∧
    ∀ first count, ∃ made : List (Time × Attempt),
      made.length = count ∧ d.Due made ∧ ∀ m ∈ made, first ≤ m.1 ∧ m.2.IsRefused := by
  intro reports
  subst hrun
  obtain ⟨trials, refusals, h, htold⟩ :=
    (start_fruitless target settings).run hrefused hturn
  generalize (start target settings).run steps = d at hturn h htold ⊢
  have hreports : reports = told target trials d.worker.current refusals := htold.symm
  refine ⟨⟨trials, refusals, hreports, h.isFair, h.presses_handed, ?_, fun hpending => ⟨?_, ?_⟩⟩,
    h.unwritten, ?_, ?_, ?_, fun e hcurrent => (h.trying e hcurrent).1,
    fun first made hdue hmade henough => ?_, d.exists_due⟩
  · rw [h.booked.staleDropped, h.overdue, List.length_map]
  · have hcurrent : d.worker.current = none :=
      Option.toList_eq_nil_iff.mp (List.append_eq_nil_iff.mp hpending).1
    rw [hreports, hcurrent]
    exact List.append_nil _
  · rw [h.presses_handed, hpending]
    exact List.append_nil _
  · rw [h.booked.delivered, edges, h.unwritten]
    rfl
  · rw [hreports, h.countP_told]
  · rw [hreports]
    exact fun report => h.press_of_mem_told
  · have hleft := h.movesLeft_moves hturn hdue hmade
    have hmost := d.worker.movesLeft_le first
    rw [h.booked.sameSettings] at hmost
    have hnone : (d.moves made).worker.movesLeft first = 0 := by omega
    exact RemoteWorker.pending_of_movesLeft hnone

/-- Two taps are handed over, and the server is not there. The first press is tried twice. -/
def inVain : List RemoteStep :=
  twoTaps.map .handOver ++ [105, 105, 600, 1105, 2205, 2205, 2205, 2205, 3415, 4746, 4746].map
    fun now => .move now .refused

/-- Each of the two presses is refused twice and then dropped, and nothing is left. -/
theorem unreachable_of_taps :
    let d := (start { mode := .remote } {}).run inVain
    ∃ trials : List Trial, trials.map (·.press) = presses twoTaps ∧
      (start { mode := .remote } {}).reports inVain =
        trials.flatMap (Trial.reports { mode := .remote }) ∧
      d.worker.stats = { delivered := 0, failed := 4, staleDropped := 2 } := by
  intro d
  have hrefused : ∀ now a, .move now a ∈ inVain → a.IsRefused := by
    intro now a hmove
    rcases List.mem_append.mp hmove with hhanded | hmade
    · obtain ⟨e, -, he⟩ := List.mem_map.mp hhanded
      cases he
    · obtain ⟨time, -, htime⟩ := List.mem_map.mp hmade
      cases htime
      exact ⟨rfl, rfl⟩
  have hhanded : d.handed = twoTaps := by decide +kernel
  have hturn : InTurn d.handed := hhanded ▸
    inTurn_flatMap [(Timeline.tap.pressEdge 1 0 0, Timeline.tap.releaseEdge 1 0 0),
      (Timeline.tap.pressEdge 2 1 2000, Timeline.tap.releaseEdge 2 1 2000)] (by decide)
  obtain ⟨⟨trials, refusals, -, -, -, -, hdone⟩, -⟩ :=
    unreachable { mode := .remote } {} inVain (d := d) rfl hrefused hturn
  obtain ⟨hreports, hpresses⟩ := hdone (by decide +kernel)
  exact ⟨trials, hpresses.symm.trans (congrArg presses hhanded), hreports, by decide +kernel⟩

end Delivery

end CrowdPad
