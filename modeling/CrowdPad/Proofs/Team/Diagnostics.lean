import CrowdPad.Proofs.Ring
import CrowdPad.Proofs.Team.Chronicle
import CrowdPad.Proofs.Team.Counters
import CrowdPad.Proofs.Team.Station

/-! The diagnostics of a team. Whatever happens in its life, the two rings of a team hold the newest of the
commands and macros that it dropped, and of the failures that it told of, since it was reset last. -/

namespace CrowdPad

/-- What diagnostics are to know of. -/
inductive Mark where
  | dropped (entry : Dropped)
  | failed (failure : DispatchFailure)
  | cleared

namespace Mark

/-- What a mark does to the ring of what was dropped. -/
def dropping? : Mark → Option (RingChange Dropped)
  | .dropped entry => some (.push entry)
  | .failed _ => none
  | .cleared => some .clear

/-- What a mark does to the ring of failures. -/
def failing? : Mark → Option (RingChange DispatchFailure)
  | .dropped _ => none
  | .failed failure => some (.push failure)
  | .cleared => some .clear

/-- What is dropped at a moment, each for a reason. -/
def drops (now : Time) (author : String) (reasons : List String) : List Mark :=
  reasons.map fun reason => .dropped { time := now, author, reason }

def failed? : Notice → Option Mark
  | .failed failure => some (.failed failure)
  | _ => none

/-- The failures that notices tell of. -/
def failures (notices : List Notice) : List Mark := notices.filterMap failed?

theorem dropping?_drops (now : Time) (author : String) (reasons : List String) :
    (drops now author reasons).filterMap dropping? =
      (reasons.map fun reason => ({ time := now, author, reason } : Dropped)).map .push := by
  rw [drops, List.filterMap_map, List.map_map]
  exact congrFun List.filterMap_eq_map' reasons

theorem failing?_drops (now : Time) (author : String) (reasons : List String) :
    (drops now author reasons).filterMap failing? = [] := by
  rw [drops, List.filterMap_map, List.filterMap_eq_nil_iff]
  exact fun _ _ => rfl

theorem failures_told (told : List DispatchFailure) :
    failures (told.map .failed) = told.map .failed := by
  rw [failures, List.filterMap_map]
  exact congrFun List.filterMap_eq_map' told

theorem dropping?_failed (told : List DispatchFailure) :
    (told.map failed).filterMap dropping? = [] := by
  rw [List.filterMap_map, List.filterMap_eq_nil_iff]
  exact fun _ _ => rfl

theorem failing?_failed (told : List DispatchFailure) :
    (told.map failed).filterMap failing? = told.map .push := by
  rw [List.filterMap_map]
  exact congrFun List.filterMap_eq_map' told

end Mark

namespace Team

/-! ### What is marked -/

/-- Whether the rings of a team were changed as marks say. -/
structure Marked (t t' : Team) (marks : List Mark) : Prop where
  dropped : t'.dropped = t.dropped.changeAll (marks.filterMap Mark.dropping?)
  failures : t'.failures = t.failures.changeAll (marks.filterMap Mark.failing?)

/-- The rings of a team. -/
def rings (t : Team) : Ring Dropped × Ring DispatchFailure := (t.dropped, t.failures)

variable {t t' : Team} {now : Time}

theorem marked_of_rings (h : t'.rings = t.rings) : t.Marked t' [] :=
  ⟨congrArg Prod.fst h, congrArg Prod.snd h⟩

theorem Marked.trans {t'' : Team} {marks more : List Mark} (h : t.Marked t' marks)
    (h' : t'.Marked t'' more) : t.Marked t'' (marks ++ more) := by
  constructor
  · rw [h'.dropped, h.dropped, List.filterMap_append, Ring.changeAll_append]
  · rw [h'.failures, h.failures, List.filterMap_append, Ring.changeAll_append]

theorem Marked.rings_left {t₀ : Team} {marks : List Mark} (h : t.Marked t' marks)
    (hrings : t.rings = t₀.rings) : t₀.Marked t' marks :=
  (marked_of_rings hrings).trans h

theorem Marked.rings_right {t'' : Team} {marks : List Mark} (h : t.Marked t' marks)
    (hrings : t''.rings = t'.rings) : t.Marked t'' marks := by
  have hsame := h.trans (marked_of_rings hrings)
  rwa [List.append_nil] at hsame

theorem marked_drop (t : Team) (now : Time) (author : String) (reasons : List String) :
    t.Marked (t.drop now author reasons) (Mark.drops now author reasons) := by
  constructor
  · rw [Mark.dropping?_drops, Ring.changeAll_map_push]
    rfl
  · rw [Mark.failing?_drops]
    rfl

theorem marked_recordFailures (t : Team) (told : List DispatchFailure) :
    t.Marked (t.recordFailures told).1 (Mark.failures (t.recordFailures told).2) := by
  have hmarks : Mark.failures (t.recordFailures told).2 = told.map .failed :=
    Mark.failures_told told
  rw [hmarks]
  constructor
  · rw [Mark.dropping?_failed]
    rfl
  · rw [Mark.failing?_failed, Ring.changeAll_map_push]
    rfl

/-! #### Time -/

theorem marked_fire (t : Team) (now : Time) :
    t.Marked (t.fire now).1 (Mark.failures (t.fire now).2) :=
  (marked_recordFailures { t with playback := (t.playback.fire now).1 } _).rings_left rfl

theorem marked_work (t : Team) (now : Time) (network : Attempt) (device : Device) :
    t.Marked (t.work now network device).1 (Mark.failures (t.work now network device).2.2) :=
  (marked_recordFailures { t with playback := (t.playback.work now network device).1 } _).rings_left rfl

/-- A random verb that is played drops nothing and fails nowhere. -/
theorem injectRandom_unmarked (t : Team) (now : Time) :
    (t.injectRandom now).1.rings = t.rings ∧ Mark.failures (t.injectRandom now).2.1 = [] :=
  t.injectRandom_cases now ⟨rfl, rfl⟩ fun _ _ _ _ _ => ⟨rfl, rfl⟩

theorem tickRandom_unmarked (t : Team) (now : Time) :
    (t.tickRandom now).1.rings = t.rings ∧ Mark.failures (t.tickRandom now).2 = [] := by
  refine t.tickRandom_cases now ?_ ?_ ?_
  · exact fun _ => ⟨rfl, rfl⟩
  · exact fun _ _ _ => ⟨rfl, rfl⟩
  · intro time interval _ _ _
    exact injectRandom_unmarked { t with randomAt := some (nextRandomAt now time interval) } now

theorem marked_settle (t : Team) (now : Time) (network : Attempt) (device : Device) :
    t.Marked (t.settle now network device).1
      (Mark.failures (t.settle now network device).2.2.1) := by
  obtain ⟨hrings, hnone⟩ := (t.fire now).1.tickRandom_unmarked now
  let played := ((t.fire now).1.tickRandom now).1
  have hfired : t.Marked played (Mark.failures (t.fire now).2) := (t.marked_fire now).rings_right hrings
  have hworked := (hfired.trans (played.marked_fire now)).trans
    ((played.fire now).1.marked_work now network device)
  have hmarks : Mark.failures (t.settle now network device).2.2.1 =
      Mark.failures (t.fire now).2 ++ Mark.failures (played.fire now).2 ++
        Mark.failures ((played.fire now).1.work now network device).2.2 := by
    show Mark.failures ((t.fire now).2 ++ ((t.fire now).1.tickRandom now).2 ++ (played.fire now).2 ++
      ((played.fire now).1.work now network device).2.2) = _
    unfold Mark.failures at hnone ⊢
    rw [List.filterMap_append, List.filterMap_append, List.filterMap_append, hnone, List.append_nil]
  rw [hmarks]
  exact hworked.rings_right rfl

/-! #### Messages and macros -/

/-- Why commands of a message are dropped; a message that is ignored is not looked at. -/
def refusals (t : Team) (author text : String) : List String :=
  if t.config.grammar.isCommand text ∧ ¬t.ignores author text then (t.ordersOf text).reasons else []

theorem marked_handleMessage (t : Team) (now : Time) (author text : String) (reference : Time) :
    t.Marked (t.handleMessage now author text reference).1
      (Mark.drops now author (t.refusals author text)) := by
  have hdropped : t.Marked (t.counted.drop now author (t.ordersOf text).reasons)
      (Mark.drops now author (t.ordersOf text).reasons) :=
    (t.counted.marked_drop now author (t.ordersOf text).reasons).rings_left rfl
  refine t.handleMessage_cases now author text reference ?_ ?_ ?_ ?_
  · intro hno
    rw [refusals, if_neg fun h => hno h.1]
    exact marked_of_rings rfl
  · intro _ hignores
    rw [refusals, if_neg fun h => h.2 hignores]
    exact marked_of_rings rfl
  · intro hcommand hnew _
    rw [refusals, if_pos ⟨hcommand, hnew⟩]
    exact hdropped
  · intro hcommand hnew _
    rw [refusals, if_pos ⟨hcommand, hnew⟩, scheduleMessage_eq]
    exact hdropped.rings_right rfl

theorem marked_withMacroFile (t : Team) (now : Time) (file : MacroFile) :
    t.Marked (t.withMacroFile now file) (Mark.drops now ""
      ((MacroTable.ofSteps t.verbs t.config.macros.limits file.macros).2.map MacroError.message)) :=
  (t.marked_drop now "" _).rings_right rfl

/-- What is dropped when the macro file is read. -/
def fileDrops (t : Team) (files : Files) (now : Time) : List Mark :=
  Mark.drops now "" ((refusedMacros files t.config t.verbs).map MacroError.message)

/-- A reset that goes well clears both rings first. -/
theorem marked_reset (files : Files) (now : Time) (t : Team) :
    t.Marked (TeamAction.reset files now t).2.1
      (if (TeamAction.reset files now t).2.2.2.isOk then .cleared :: t.fileDrops files now else []) := by
  rw [fileDrops, TeamAction.reset_eq]
  cases hread : readMacroFile files t.config with
  | error error => exact marked_of_rings rfl
  | ok file =>
      rw [refusedMacros_of_ok hread]
      let cleared : Team := { t.cancelAll.1 with
        recent := [], dropped := t.dropped.clear, failures := t.failures.clear }
      have hcleared : t.Marked cleared [.cleared] := ⟨rfl, rfl⟩
      exact hcleared.trans (cleared.marked_withMacroFile now (file.getD {}))

theorem marked_reloadMacros (files : Files) (now : Time) (t : Team) :
    t.Marked (TeamAction.reloadMacros files now t).2.1 (t.fileDrops files now) := by
  rw [fileDrops, TeamAction.reloadMacros_eq]
  cases hread : readMacroFile files t.config with
  | error error =>
      rw [refusedMacros_of_error hread]
      exact marked_of_rings rfl
  | ok file =>
      rw [refusedMacros_of_ok hread]
      cases file with
      | none => exact marked_of_rings rfl
      | some file => exact t.marked_withMacroFile now file

theorem marked_restore (files : Files) (now : Time) (t : Team) (stored : StoredMacros) :
    t.Marked (TeamAction.restore stored files now t).2.1
      (Mark.drops now "" ((TeamAction.restore stored files now t).2.2.2.map MacroError.message)) :=
  (t.marked_drop now "" _).rings_right rfl

end Team

/-! ### Marks in the life of a team -/

namespace Mark

/-- The record of what diagnostics are to know of. -/
def chronicler : Chronicler Mark where
  settling now s := failures (s.team.settle now s.host.network s.host.device).2.2.1
  doing s σ :=
    match σ with
    | .step (.message author text _) => drops s.host.now author (s.team.refusals author text)
    | .step .reset =>
      if (TeamAction.reset s.host.files s.host.now s.team).2.2.2.isOk then
        .cleared :: s.team.fileDrops s.host.files s.host.now
      else []
    | .step .reloadMacros => s.team.fileDrops s.host.files s.host.now
    | .step (.restore stored) =>
      drops s.host.now ""
        ((TeamAction.restore stored s.host.files s.host.now s.team).2.2.2.map MacroError.message)
    | .step .fire => failures (s.team.fire s.host.now).2
    | .step .work => failures (s.team.work s.host.now s.host.network s.host.device).2.2
    | _ => []

theorem marked_live (s : Station) {σ : LifeStep} (hσ : σ.IsInstant) :
    s.team.Marked (s.live σ).team (chronicler.doing s σ) := by
  cases σ with
  | move host => exact hσ.elim
  | beginStop => exact Team.marked_of_rings rfl
  | endStop => exact Team.marked_of_rings rfl
  | step σ =>
      cases σ with
      | wait ms => exact hσ.elim
      | advance ms => exact hσ.elim
      | message author text shift =>
          exact s.team.marked_handleMessage s.host.now author text (s.host.now + shift)
      | reset => exact Team.marked_reset s.host.files s.host.now s.team
      | reloadMacros => exact Team.marked_reloadMacros s.host.files s.host.now s.team
      | restore stored => exact Team.marked_restore s.host.files s.host.now s.team stored
      | fire => exact s.team.marked_fire s.host.now
      | work => exact s.team.marked_work s.host.now s.host.network s.host.device
      | injectRandom => exact Team.marked_of_rings (s.team.injectRandom_unmarked s.host.now).1
      | tickRandom => exact Team.marked_of_rings (s.team.tickRandom_unmarked s.host.now).1
      | addMacro name body =>
          exact Team.marked_of_rings <| TeamAction.eq_of_macros Team.rings (fun _ _ => rfl)
            (TeamAction.exists_macros_addMacro name body s.host.files s.host.now s.team)
      | changeMacro name body =>
          exact Team.marked_of_rings <| TeamAction.eq_of_macros Team.rings (fun _ _ => rfl)
            (TeamAction.exists_macros_changeMacro name body s.host.files s.host.now s.team)
      | removeMacro name =>
          exact Team.marked_of_rings <| TeamAction.eq_of_macros Team.rings (fun _ _ => rfl)
            (TeamAction.exists_macros_removeMacro name s.host.files s.host.now s.team)
      | _ => exact Team.marked_of_rings rfl

theorem keeps_marked (t : Team) : chronicler.Keeps fun _ c => t.Marked c.station.team c.seen where
  later := fun _ h => h
  moveTo := fun _ h => h
  settle := fun {now c} h =>
    h.trans (c.station.team.marked_settle now c.station.host.network c.station.host.device)
  act := fun {c _} hσ h => h.trans (marked_live c.station hσ)

end Mark

namespace Station

variable {host : Host} {seed : Nat} {config : TeamConfig} {verbs : VerbTable}
  {telemetry : Option Telemetry} {s : Station}

/-- The rings of a team that is started hold the macros of its file that are refused. -/
theorem start_marked (hstart : start host seed config verbs telemetry = .ok s) :
    ∃ t : Team, t.dropped = .ofCapacity config.diagnosticsCapacity ∧
      t.failures = .ofCapacity config.diagnosticsCapacity ∧
      t.Marked s.team (Mark.drops host.now ""
        ((Team.refusedMacros host.files config verbs).map MacroError.message)) := by
  obtain ⟨team, notices, hteam, rfl⟩ := exists_of_start_eq_ok hstart
  obtain ⟨-, -, file, hread, rfl⟩ := Team.exists_of_start_eq_ok hteam
  rw [Team.refusedMacros_of_ok hread]
  exact ⟨_, rfl, rfl, Team.marked_withMacroFile _ host.now (file.getD {})⟩

/-- **Rings keep the newest entries.** A ring holds the newest of the entries pushed since it was cleared
last, oldest first, whatever is pushed and cleared and however many entries it is for. So do the rings of a
team with what was dropped and with the failures that the team told of, whatever happens in its life. So does
a memory for events with those that were published, and what it holds of one kind are the events of that kind
among them, in their order. -/
theorem rings_keep_newest (hstart : start host seed config verbs telemetry = .ok s)
    (life : List LifeStep) :
    let refused := Mark.drops host.now ""
      ((Team.refusedMacros host.files config verbs).map MacroError.message)
    let c := Mark.chronicler.liveAll { station := s, seen := refused } life
    c.station = s.liveAll life ∧
      c.station.team.dropped.HoldsNewest config.diagnosticsCapacity
        (RingChange.sinceClear (c.seen.filterMap Mark.dropping?)) ∧
      c.station.team.failures.HoldsNewest config.diagnosticsCapacity
        (RingChange.sinceClear (c.seen.filterMap Mark.failing?)) ∧
      (∀ (α : Type) (capacity : Nat) (changes : List (RingChange α)),
        ((Ring.ofCapacity capacity).changeAll changes).HoldsNewest capacity
          (RingChange.sinceClear changes)) ∧
      ∀ (capacity : Nat) (files : Files) (events : List Event),
        ∃ ring : Ring Event, ring.HoldsNewest capacity events ∧
          let sink := ((EventSink.ofCapacity capacity).publishAll files events).1
          sink.backlog = ring.items ∧ ∀ kind, sink.backlogOf kind =
            ring.items.filter fun e => e.kind == kind := by
  intro refused c
  obtain ⟨t, hdropped, hfailures, hmarked⟩ := start_marked hstart
  have hkept : t.Marked c.station.team c.seen :=
    (Mark.keeps_marked t).always (c := { station := s, seen := refused }) hmarked life
  refine ⟨Chronicler.station_liveAll _ life, ?_, ?_, ?_, ?_⟩
  · rw [hkept.dropped, hdropped]
    exact Ring.holdsNewest_changeAll ..
  · rw [hkept.failures, hfailures]
    exact Ring.holdsNewest_changeAll ..
  · intro α capacity changes
    exact Ring.holdsNewest_changeAll capacity changes
  · intro capacity files events
    obtain ⟨ring, hsink, hnewest⟩ := EventSink.holdsNewest_publishAll capacity files events
    refine ⟨ring, hnewest, ?_⟩
    rw [hsink]
    exact ⟨rfl, fun _ => rfl⟩

/-- A team with two places in each of its rings. -/
def forgetful : Station :=
  { twoKeys with member := { team := { twoKeys.team with
      config := { twoKeys.team.config with diagnosticsCapacity := 2 }
      dropped := .ofCapacity 2
      failures := .ofCapacity 2 } } }

/-- A life in which a command is dropped, and three of one message behind a reset. -/
def mumbling : List LifeStep :=
  [.step (.message "ann" "+jump 1+x" 0), .step .reset,
    .step (.message "bob" "+jump 1+x +duck +jump 2+x +jump 3+x" 0), .step .injectRandom]

theorem rings_keep_newest_mumbling :
    let c := Mark.chronicler.liveAll { station := forgetful } mumbling
    (RingChange.sinceClear (c.seen.filterMap Mark.dropping?)).length = 3 ∧
      c.station.team.dropped.items =
        (RingChange.sinceClear (c.seen.filterMap Mark.dropping?)).drop 1 := by
  have hstart : start forgetful.host 0 forgetful.team.config forgetful.team.verbs none =
      .ok forgetful := rfl
  obtain ⟨-, ⟨-, hsuffix, hlength⟩, -⟩ := rings_keep_newest hstart mumbling
  intro c
  have hthree : (RingChange.sinceClear (c.seen.filterMap Mark.dropping?)).length = 3 := by
    decide +kernel
  refine ⟨hthree, (List.suffix_iff_eq_drop.mp hsuffix).trans ?_⟩
  rw [hlength]
  exact congrArg (fun n => List.drop (n - min n 2) _) hthree

end Station

end CrowdPad
