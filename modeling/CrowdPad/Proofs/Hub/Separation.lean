import CrowdPad.Proofs.Hub.Alike

/-! Teams that run side by side. Whatever messages, hooks, changes of macros and time do to the teams of
a hub, each of them goes on as if nothing had been done to the others: its answers, its macros, its
batches and counters, its diagnostics and the edges that its worker is handed, each at its time, are the
same. Teams that keep macros meet in the files only, where it takes more than two different names to
keep them apart: a file where another team needs a folder is in its way. -/

namespace CrowdPad

/-- Something that happens to a hub. -/
inductive HubStep where
  | route (name author text : String) (shift : Time)
  /-- A hook for one team, or for all. -/
  | control (team : Option String) (hook : Hook)
  | call (name : String) (call : MacroCall)
  | restore (name : String) (stored : StoredMacros)
  /-- Chance goes on in some other way for a team. -/
  | reseed (name : String) (seed : Nat)
  /-- The network becomes another one, and the device refuses other keys. -/
  | surround (network : Attempt) (failing : List String)
  | advance (ms : Nat)

/-- Whether a step is not for other teams alone. -/
def HubStep.concerns (name : String) : HubStep → Bool
  | .route other _ _ _ | .call other _ | .restore other _ | .reseed other _ => other == name
  | .control team _ => team.all (· == name)
  | .surround _ _ | .advance _ => true

/-- What a step is answered with. -/
inductive HubAnswer where
  | outcome (outcome : MessageOutcome)
  | hooked (report : HookReport)
  | called (result : Except TeamError Unit)
  | restored (errors : List MacroError)
  | refused (error : TeamError)
  | silent

/-- What an answer says about a team. -/
def HubAnswer.about (name : String) : HubAnswer → HubAnswer
  | .hooked report => .hooked { failed := report.about name }
  | answer => answer

/-- Chance goes on from another seed. -/
def TeamAction.reseed (seed : Nat) : TeamAction Unit := fun fs _ t => (fs, { t with seed }, [], ())

theorem TeamAction.tidy_reseed (seed : Nat) : (reseed seed).Tidy := fun _ _ _ => ⟨rfl, .inl rfl⟩

theorem TeamAction.local_reseed (seed : Nat) : (reseed seed).Local := fun _ _ _ _ _ h => ⟨rfl, h⟩

theorem TeamAction.local_message (author text : String) (shift : Time) :
    (message author text shift).Local :=
  local_of_team fun now t => t.handleMessage now author text (now + shift)

namespace Hub

/-- Does something to the running team of a name, and answers. -/
def ask {α : Type} (hub : Hub) (name : String) (action : TeamAction α) (answer : α → HubAnswer) :
    Hub × HubAnswer :=
  match hub.act? name action with
  | some (hub, a) => (hub, answer a)
  | none => (hub, .refused (.unknownTeam name))

def step (hub : Hub) : HubStep → Hub × HubAnswer
  | .route name author text shift =>
    match hub.route name author text shift with
    | .ok (hub, outcome) => (hub, .outcome outcome)
    | .error error => (hub, .refused error)
  | .control team hook =>
    match hub.control team hook with
    | .ok (hub, report) => (hub, .hooked report)
    | .error error => (hub, .refused error)
  | .call name call => hub.ask name call.action .called
  | .restore name stored => hub.ask name (.restore stored) .restored
  | .reseed name seed => hub.ask name (.reseed seed) fun _ => .silent
  | .surround network failing =>
    ({ hub with host := { hub.host with network, device := { hub.host.device with failing } } },
      .silent)
  | .advance ms => (hub.advance ms, .silent)

variable {config : TeamConfig} {hub hub' : Hub}

/-! ### One step -/

theorem step_route (hub : Hub) (name author text : String) (shift : Time) :
    hub.step (.route name author text shift) = hub.ask name (.message author text shift) .outcome := by
  rw [step, route, ask]
  cases hub.act? name (.message author text shift) <;> rfl

section Ask

variable {α : Type} {action : TeamAction α} (htidy : action.Tidy) (answer : α → HubAnswer)

include htidy

theorem passes_ask (h : Secludes config hub) {name : String} (hother : name ≠ config.name) :
    Passes config hub (hub.ask name action answer).1 := by
  rw [ask]
  cases hact : hub.act? name action with
  | none => exact .refl config hub
  | some done => exact passes_act? htidy h hother hact

theorem Alike.ask (h : Alike config hub hub') (hlocal : action.Local) :
    Alike config (hub.ask config.name action answer).1 (hub'.ask config.name action answer).1 ∧
      (hub'.ask config.name action answer).2 = (hub.ask config.name action answer).2 := by
  obtain ⟨other, other', a, hact, hact', hlater⟩ := h.act? htidy hlocal
  simp only [Hub.ask, hact, hact']
  exact ⟨hlater, trivial⟩

end Ask

theorem passes_control (h : Secludes config hub) {name : String} (hother : name ≠ config.name)
    (hook : Hook) : Passes config hub (hub.step (.control (some name) hook)).1 := by
  rw [step, control]
  by_cases hthere : hub.names.contains name
  · simp only [if_pos hthere, applyHook_eq_foldl, List.foldl_cons, List.foldl_nil]
    exact (passes_hooked hook h hother {}).1
  · simp only [if_neg hthere]
    exact .refl config hub

theorem Alike.control (h : Alike config hub hub') (team : Option String) (hook : Hook) :
    Alike config (hub.step (.control team hook)).1 (hub'.step (.control team hook)).1 ∧
      (hub'.step (.control team hook)).2.about config.name =
        (hub.step (.control team hook)).2.about config.name := by
  have happlied : ∀ names,
      Alike config (hub.applyHook hook {} names).1 (hub'.applyHook hook {} names).1 ∧
        (hub'.applyHook hook {} names).2.about config.name =
          (hub.applyHook hook {} names).2.about config.name := h.applyHook hook rfl
  cases team with
  | none =>
      rw [step, step, Hub.control, Hub.control, h.names]
      exact ⟨(happlied _).1, congrArg (fun failed => HubAnswer.hooked { failed }) (happlied _).2⟩
  | some name =>
      rw [step, step, Hub.control, Hub.control, h.names]
      by_cases hthere : hub.names.contains name
      · simp only [if_pos hthere]
        exact ⟨(happlied _).1, congrArg (fun failed => HubAnswer.hooked { failed }) (happlied _).2⟩
      · simp only [if_neg hthere]
        exact ⟨h, trivial⟩

/-- A step for other teams alone passes a team by. -/
theorem passes_step (h : Secludes config hub) {σ : HubStep} (hσ : σ.concerns config.name = false) :
    Passes config hub (hub.step σ).1 := by
  cases σ with
  | route name author text shift =>
      rw [step_route]
      exact passes_ask (TeamAction.tidy_message author text shift) _ h (beq_eq_false_iff_ne.mp hσ)
  | control team hook =>
      cases team with
      | none => cases hσ
      | some name => exact passes_control h (beq_eq_false_iff_ne.mp hσ) hook
  | call name call => exact passes_ask (TeamAction.tidy_call call) _ h (beq_eq_false_iff_ne.mp hσ)
  | restore name stored =>
      exact passes_ask (TeamAction.tidy_restore stored) _ h (beq_eq_false_iff_ne.mp hσ)
  | reseed name seed =>
      exact passes_ask (TeamAction.tidy_reseed seed) _ h (beq_eq_false_iff_ne.mp hσ)
  | surround network failing => cases hσ
  | advance ms => cases hσ

theorem Alike.surround (h : Alike config hub hub') (network : Attempt) (failing : List String) :
    Alike config (hub.step (.surround network failing)).1 (hub'.step (.surround network failing)).1 :=
  { h with
    secludes := ⟨h.secludes.named, h.secludes.sturdy, h.secludes.teams, h.secludes.logs,
      h.secludes.events⟩
    secludes' := ⟨h.secludes'.named, h.secludes'.sturdy, h.secludes'.teams, h.secludes'.logs,
      h.secludes'.events⟩
    hosts := ⟨h.hosts.epochMs, rfl, rfl⟩ }

/-- Any other step comes to the same. -/
theorem Alike.step (h : Alike config hub hub') {σ : HubStep} (hσ : σ.concerns config.name) :
    Alike config (hub.step σ).1 (hub'.step σ).1 ∧
      (hub'.step σ).2.about config.name = (hub.step σ).2.about config.name := by
  cases σ with
  | route name author text shift =>
      obtain rfl : name = config.name := beq_iff_eq.mp hσ
      rw [step_route, step_route]
      obtain ⟨hlater, hsame⟩ := h.ask (TeamAction.tidy_message author text shift) .outcome
        (TeamAction.local_message author text shift)
      exact ⟨hlater, congrArg (HubAnswer.about config.name) hsame⟩
  | control team hook => exact h.control team hook
  | call name call =>
      obtain rfl : name = config.name := beq_iff_eq.mp hσ
      obtain ⟨hlater, hsame⟩ := h.ask (TeamAction.tidy_call call) .called (TeamAction.local_call call)
      exact ⟨hlater, congrArg (HubAnswer.about config.name) hsame⟩
  | restore name stored =>
      obtain rfl : name = config.name := beq_iff_eq.mp hσ
      obtain ⟨hlater, hsame⟩ := h.ask (TeamAction.tidy_restore stored) .restored
        (TeamAction.local_restore stored)
      exact ⟨hlater, congrArg (HubAnswer.about config.name) hsame⟩
  | reseed name seed =>
      obtain rfl : name = config.name := beq_iff_eq.mp hσ
      obtain ⟨hlater, hsame⟩ := h.ask (TeamAction.tidy_reseed seed) (fun _ => .silent)
        (TeamAction.local_reseed seed)
      exact ⟨hlater, congrArg (HubAnswer.about config.name) hsame⟩
  | surround network failing => exact ⟨h.surround network failing, rfl⟩
  | advance ms =>
      obtain ⟨hlater, -⟩ := @Watched.advance_alike ⟨hub, []⟩ ⟨hub', []⟩ config h rfl ms
      rw [Watched.advance_hub, Watched.advance_hub] at hlater
      exact ⟨hlater, rfl⟩

theorem advance_zero (hub : Hub) : hub.advance 0 = settle hub.host.now hub := by
  have hgoal : hub.host.now + ((0 : Nat) : Int) = hub.host.now := Int.add_zero _
  rw [advance, Clock.advance, hgoal, Clock.wait, if_pos (by simp)]

end Hub

/-! ### Runs -/

/-- A hub, what the worker of one of its teams was handed, and the answers to the steps that were not
for other teams alone, as far as they are about that team. -/
structure Watch extends Hub.Watched where
  answers : List HubAnswer := []

namespace Watch

def step (name : String) (w : Watch) (σ : HubStep) : Watch where
  hub := (w.hub.step σ).1
  received :=
    match σ with
    | .advance ms => (w.toWatched.advance name ms).received
    | _ => w.received
  answers := if σ.concerns name then w.answers ++ [(w.hub.step σ).2.about name] else w.answers

theorem step_answers (name : String) (w : Watch) (σ : HubStep) : (w.step name σ).answers =
    if σ.concerns name then w.answers ++ [(w.hub.step σ).2.about name] else w.answers := rfl

def run (name : String) (w : Watch) (steps : List HubStep) : Watch := steps.foldl (step name) w

/-- The diagnostics of the team of a name. -/
def diagnostics? (name : String) (w : Watch) : Option Value :=
  (w.hub.team? name).map (Team.diagnostics w.hub.host.epochMs)

/-- Watching a hub changes nothing. -/
theorem run_hub (name : String) (w : Watch) (steps : List HubStep) :
    (w.run name steps).hub = steps.foldl (fun hub σ => (hub.step σ).1) w.hub := by
  induction steps generalizing w with
  | nil => rfl
  | cons σ rest ih => exact ih (w.step name σ)

/-- Whether two watched hubs are the same to a team, and were so all the time. -/
structure Alike (config : TeamConfig) (w w' : Watch) : Prop where
  hubs : Hub.Alike config w.hub w'.hub
  received : w'.received = w.received
  answers : w'.answers = w.answers

variable {config : TeamConfig} {w w' : Watch} {σ : HubStep}

theorem Alike.step_left (h : Alike config w w') (hσ : σ.concerns config.name = false) :
    Alike config (w.step config.name σ) w' := by
  have hpasses := Hub.passes_step h.hubs.secludes hσ
  refine ⟨h.hubs.passes hpasses (.refl config w'.hub), ?_, ?_⟩
  · have hsame : (w.step config.name σ).received = w.received := by
      cases σ with
      | advance ms => cases hσ
      | _ => rfl
    exact h.received.trans hsame.symm
  · rw [step_answers, hσ]
    exact h.answers

theorem Alike.step (h : Alike config w w') (hσ : σ.concerns config.name) :
    Alike config (w.step config.name σ) (w'.step config.name σ) := by
  obtain ⟨hlater, hanswer⟩ := h.hubs.step hσ
  refine ⟨hlater, ?_, ?_⟩
  · cases σ with
    | advance ms => exact (Hub.Watched.advance_alike h.hubs h.received ms).2
    | _ => exact h.received
  · rw [step_answers, step_answers, if_pos hσ, if_pos hσ, h.answers, hanswer]

theorem Alike.run_filter (h : Alike config w w') (steps : List HubStep) :
    Alike config (w.run config.name steps)
      (w'.run config.name (steps.filter (·.concerns config.name))) := by
  induction steps generalizing w w' with
  | nil => exact h
  | cons σ rest ih =>
      cases hσ : σ.concerns config.name with
      | false =>
          rw [List.filter_cons_of_neg (by simp [hσ])]
          exact ih (h.step_left hσ)
      | true =>
          rw [List.filter_cons_of_pos hσ]
          exact ih (h.step hσ)

/-- **Teams do not influence each other.** A team whose macro file can be told from all other files that
the hub writes is answered the same, is handed the same edges at the same times, and ends up the same
with the same diagnostics, whether or not the steps for other teams alone are taken. -/
theorem unmoved_by_others {hub : Hub} {name : String} {t : Team} (hteam : hub.team? name = some t)
    (hsecluded : hub.Secludes t.config) (steps : List HubStep) :
    let full := run name { hub, received := [] } steps
    let own := run name { hub, received := [] } (steps.filter (·.concerns name))
    own.answers = full.answers ∧ own.received = full.received ∧
      own.hub.team? name = full.hub.team? name ∧ own.diagnostics? name = full.diagnostics? name := by
  intro full own
  obtain ⟨m, hfind, rfl⟩ := Option.map_eq_some_iff.mp hteam
  obtain rfl : m.team.config.name = name := Hub.name_of_find? hfind
  have hbegin : Alike m.team.config { hub, received := [] } { hub, received := [] } :=
    ⟨hsecluded.alike ⟨m.team, hteam, rfl⟩, rfl, rfl⟩
  have hend := hbegin.run_filter steps
  refine ⟨hend.answers, hend.received, hend.hubs.team, ?_⟩
  rw [diagnostics?, diagnostics?, hend.hubs.team, hend.hubs.hosts.epochMs]

/-! ### Two teams -/

/-- Two teams that keep their macros, one of which logs what it does. -/
def sideBySide (redPath bluePath : String) (files : Files) (sink : EventSink) : Hub where
  members := [(Station.keeping redPath files).member,
    { team := { (Station.keeping bluePath files).team with
        config := { (Station.keeping bluePath files).team.config with name := "blue" } }
      telemetry := some { component := "team:blue", log := some { path := "logs/blue.log" } } }]
  host := { files, sink }

theorem secludes_sideBySide : Hub.Secludes (Station.keeping "pads/red.json" {}).team.config
    (sideBySide "pads/red.json" "pads/blue.json" {} (.file "events.log")) where
  named := by
    rintro path ⟨⟩
    decide
  sturdy := by
    rintro path ⟨⟩
    exact ⟨Files.isTree_of_entries rfl nofun, by decide⟩
  teams := by
    intro m hm hother path q hpath hq _
    simp only [sideBySide, List.mem_cons, List.not_mem_nil, or_false] at hm
    rcases hm with rfl | rfl
    · exact absurd rfl hother
    · cases hpath
      cases hq
      exact ⟨⟨by decide +kernel, by decide +kernel⟩, ⟨by decide +kernel, by decide +kernel⟩,
        by decide +kernel, by decide +kernel⟩
  logs := by
    intro m hm q hq path hpath
    simp only [sideBySide, List.mem_cons, List.not_mem_nil, or_false] at hm
    rcases hm with rfl | rfl
    · cases hq
    · cases hpath
      cases hq
      exact ⟨by decide +kernel, by decide +kernel⟩
  events := by
    rintro q ⟨⟩ path ⟨⟩
    exact ⟨by decide +kernel, by decide +kernel⟩

/-- A jump of one team is handed over at its time although the other team, which keeps its macros in the
same folder, adds a macro, plays by chance, plays its macro and is reset. -/
theorem unmoved_by_others_jump :
    (run "red" { hub := sideBySide "pads/red.json" "pads/blue.json" {} (.file "events.log"),
                 received := [] }
      [.call "blue" (.add "dash" "right 200"), .control (some "blue") .injectRandom,
        .route "red" "ann" "+jump" 0, .route "blue" "bob" "+dash" 0, .control (some "blue") .reset,
        .advance 60]).received.map (fun handed => (handed.1, handed.2.key)) =
      [(0, "a"), (50, "a")] := by
  have hteam : (sideBySide "pads/red.json" "pads/blue.json" {} (.file "events.log")).team? "red" =
      some (Station.keeping "pads/red.json" {}).team := rfl
  rw [← (unmoved_by_others hteam secludes_sideBySide _).2.1]
  cbv

/-- Whether neither the macro file of a team nor the one that is written first is such a file of another
team. -/
def SharesNone (name : String) (hub : Hub) : Prop :=
  ∀ m ∈ hub.members, ∀ m' ∈ hub.members, m.name = name → m'.name ≠ name →
    ∀ path q, m.team.config.macros.file = some path → m'.team.config.macros.file = some q →
      ∀ place ∈ [hub.host.files.spot path, hub.host.files.spot (MacroFile.staging path)],
        place ∉ [hub.host.files.spot q, hub.host.files.spot (MacroFile.staging q)]

theorem sharesNone_sideBySide {redPath bluePath : String} {files : Files} {sink : EventSink}
    (h : ∀ place ∈ [files.spot redPath, files.spot (MacroFile.staging redPath)],
      place ∉ [files.spot bluePath, files.spot (MacroFile.staging bluePath)]) :
    SharesNone "red" (sideBySide redPath bluePath files sink) := by
  intro m hm m' hm' hname hother path q hpath hq
  simp only [sideBySide, List.mem_cons, List.not_mem_nil, or_false] at hm hm'
  rcases hm with rfl | rfl
  · rcases hm' with rfl | rfl
    · exact absurd rfl hother
    · cases hpath
      cases hq
      exact h
  · have hblue : "blue" ≠ "red" := by decide
    exact absurd hname hblue

/-- The macros that the first of two teams has behind some steps. -/
def redMacros (hub : Hub) (steps : List HubStep) : Option (List String) :=
  ((run "red" { hub, received := [] } steps).hub.team? "red").map fun t => t.macros.names

theorem redMacros_eq (hub : Hub) (steps : List HubStep) : redMacros hub steps =
    ((steps.foldl (fun hub σ => (hub.step σ).1) hub).team? "red").map fun t => t.macros.names := by
  rw [redMacros, run_hub]

/-- A file of macros of which nobody has told the team. -/
def hopping : Files where
  entries := [(["red.json"],
    .file "\x7b\"macros\":\x7b\"hop\":[\x7b\"verb\":\"jump\",\"duration_ms\":50\x7d]\x7d\x7d")]

/-- A file of another team where a folder is needed, a folder that opens the way to a file, and a file
of events each change what a team comes to, although no other team has its macro file. -/
theorem moved_by_others :
    (SharesNone "red" (sideBySide "pads/red.json" "pads" {} .nowhere) ∧
      redMacros (sideBySide "pads/red.json" "pads" {} .nowhere)
        [.call "blue" (.add "dash" "right 200"), .call "red" (.add "hop" "jump 50")] = some [] ∧
      redMacros (sideBySide "pads/red.json" "pads" {} .nowhere)
        [.call "red" (.add "hop" "jump 50")] = some ["hop"]) ∧
    (SharesNone "red" (sideBySide "pads/../red.json" "pads/blue.json" hopping .nowhere) ∧
      redMacros (sideBySide "pads/../red.json" "pads/blue.json" hopping .nowhere)
        [.call "blue" (.add "dash" "right 200"), .call "red" .reload] = some ["hop"] ∧
      redMacros (sideBySide "pads/../red.json" "pads/blue.json" hopping .nowhere)
        [.call "red" .reload] = some []) ∧
    SharesNone "red" (sideBySide "pads/red.json" "blue.json" {} (.file "pads")) ∧
      redMacros (sideBySide "pads/red.json" "blue.json" {} (.file "pads"))
        [.call "blue" (.add "dash" "right 200"), .advance 0, .call "red" (.add "hop" "jump 50")] =
          some [] ∧
      redMacros (sideBySide "pads/red.json" "blue.json" {} (.file "pads"))
        [.advance 0, .call "red" (.add "hop" "jump 50")] = some ["hop"] := by
  refine ⟨⟨sharesNone_sideBySide (by decide +kernel), by decide +kernel, by decide +kernel⟩,
    ⟨sharesNone_sideBySide (by decide +kernel), by decide +kernel, by decide +kernel⟩,
    sharesNone_sideBySide (by decide +kernel), ?_, ?_⟩
  · rw [redMacros_eq]
    simp only [List.foldl_cons, List.foldl_nil, Hub.step, Hub.advance_zero]
    decide +kernel
  · rw [redMacros_eq]
    simp only [List.foldl_cons, List.foldl_nil, Hub.step, Hub.advance_zero]
    decide +kernel

end Watch

end CrowdPad
