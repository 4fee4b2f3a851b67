import CrowdPad.Proofs.Clock
import CrowdPad.Proofs.Hub.Members
import CrowdPad.Proofs.Team.Idle

/-! Two hubs that are alike to one team. What is done to the team comes to the same on both, what is done
to another team on one of them passes it by, and so do hooks for all teams and time that passes,
although the clocks of the two hubs stop at different moments. -/

namespace CrowdPad

/-! ### What a worker is handed -/

/-- The edges that a worker takes of those that it is handed. -/
def Worker.taken (worker : Worker) : List Edge → List Edge
  | [] => []
  | e :: rest =>
    match worker.handOver e with
    | .ok worker => e :: worker.taken rest
    | .error _ => worker.taken rest

/-- The edges that a worker has taken and not begun with. -/
def Worker.queue : Worker → List Edge
  | .here w => w.queue
  | .remote w => w.queue

theorem Worker.queue_of_handOver {worker next : Worker} {e : Edge} (h : worker.handOver e = .ok next) :
    next.queue = worker.queue ++ [e] := by
  cases worker with
  | here w =>
      obtain ⟨w', hw, rfl⟩ := exists_of_map_eq_ok h
      rw [LocalWorker.handOver] at hw
      split at hw
      · cases hw
      · cases hw
        rfl
  | remote w =>
      obtain ⟨w', hw, rfl⟩ := exists_of_map_eq_ok h
      rw [RemoteWorker.handOver] at hw
      split at hw
      · cases hw
      · cases hw
        rfl

theorem Worker.queue_handOverAll (now : Time) (worker : Worker) (edges : List Edge) :
    (worker.handOverAll now edges).1.queue = worker.queue ++ worker.taken edges := by
  induction edges generalizing worker with
  | nil => exact (List.append_nil _).symm
  | cons e rest ih =>
      rw [handOverAll, taken]
      cases htaken : worker.handOver e with
      | error error => exact ih worker
      | ok next =>
          have hnext := ih next
          rw [queue_of_handOver htaken, List.append_assoc] at hnext
          exact hnext

namespace Team

variable {t : Team} {now later : Time}

/-- The edges that leave the lanes for the worker when a team hands over what is due. -/
def fired (now : Time) (t : Team) : List Edge :=
  t.playback.worker.taken (t.scheduler.tick now t.playback.worker.isAccepting).2

/-- The edges that the worker of a team is handed at a moment, those of a random verb last. -/
def handed (now : Time) (t : Team) : List (Time × Edge) :=
  (t.fired now ++ ((t.fire now).1.tickRandom now).1.fired now).map fun e => (now, e)

theorem RestsAt.fired (h : t.RestsAt later) : t.fired later = [] := by
  rw [Team.fired, Scheduler.tick_eq_self t.scheduler later t.playback.worker.isAccepting h.lanes]
  rfl

theorem RestsAt.handed (h : t.RestsAt later) : t.handed later = [] := by
  rw [Team.handed, h.fire]
  simp only [tickRandom_of_not_comes h.random, h.fired]
  rfl

end Team

/-- A team by itself, and what its worker was handed. -/
structure Solo where
  team : Option Team
  received : List (Time × Edge)

namespace Solo

def settle (network : Attempt) (failing : List String) (now : Time) (s : Solo) : Solo where
  team := s.team.map fun t => (t.settle now network { failing }).1
  received := s.received ++ s.team.toList.flatMap fun t => t.handed now

def nextDue? (s : Solo) : Option Time := s.team.bind Team.nextDue?

theorem idles_settle (network : Attempt) (failing : List String) :
    Clock.Idles (settle network failing) nextDue? := by
  rintro now later ⟨_ | t, received⟩ hlater
  · simp [settle]
  · have hrests : (t.settle now network { failing }).1.RestsAt later :=
      Team.restsAt_settle network { failing } hlater
    simp only [settle, Option.map_some, Option.toList_some, List.flatMap_singleton,
      hrests.settle network { failing }, hrests.handed, List.append_nil]

end Solo

/-! ### Hubs -/

namespace Hub

variable {config : TeamConfig} {hub hub' other other' : Hub}

/-- Whether something passes a team by. -/
structure Passes (config : TeamConfig) (hub hub' : Hub) : Prop where
  spares : Spares config hub hub'
  now : hub'.host.now = hub.host.now
  team : hub'.team? config.name = hub.team? config.name

theorem Passes.refl (config : TeamConfig) (hub : Hub) : Passes config hub hub :=
  ⟨.refl config hub, rfl, rfl⟩

/-- Whether a team with these settings is there. -/
def Runs (config : TeamConfig) (hub : Hub) : Prop :=
  ∃ t, hub.team? config.name = some t ∧ t.config = config

/-- Whether two hubs are the same to a team. -/
structure Alike (config : TeamConfig) (hub hub' : Hub) : Prop where
  secludes : Secludes config hub
  secludes' : Secludes config hub'
  runs : Runs config hub
  team : hub'.team? config.name = hub.team? config.name
  now : hub'.host.now = hub.host.now
  hosts : Host.Agree hub.host hub'.host
  names : hub'.names = hub.names
  sees : config.Sees hub.host.files hub'.host.files

theorem Secludes.alike (h : Secludes config hub) (hruns : Runs config hub) :
    Alike config hub hub where
  secludes := h
  secludes' := h
  runs := hruns
  team := rfl
  now := rfl
  hosts := ⟨rfl, rfl, rfl⟩
  names := rfl
  sees := fun path hfile => ⟨h.sturdy path hfile, h.sturdy path hfile, rfl⟩

theorem Alike.passes (h : Alike config hub hub') (hpasses : Passes config hub other)
    (hpasses' : Passes config hub' other') : Alike config other other' where
  secludes := h.secludes.spares hpasses.spares
  secludes' := h.secludes'.spares hpasses'.spares
  runs := by
    rw [Runs, hpasses.team]
    exact h.runs
  team := hpasses'.team.trans (h.team.trans hpasses.team.symm)
  now := hpasses'.now.trans (h.now.trans hpasses.now.symm)
  hosts := h.hosts.stays hpasses.spares.stays.host hpasses'.spares.stays.host
  names := hpasses'.spares.stays.names.trans (h.names.trans hpasses.spares.stays.names.symm)
  sees := h.sees.spared hpasses.spares.files hpasses'.spares.files

theorem Alike.runs' (h : Alike config hub hub') : Runs config hub' := by
  rw [Runs, h.team]
  exact h.runs

/-! ### Something is done to a team -/

section Act

variable {α : Type} {action : TeamAction α} (htidy : action.Tidy)

include htidy

/-- What is done to another team passes a team by. -/
theorem passes_act? (h : Secludes config hub) {name : String} (hother : name ≠ config.name) {a : α}
    (hact : hub.act? name action = some (hub', a)) : Passes config hub hub' := by
  cases hfind : hub.members.find? fun m => m.name == name with
  | none =>
      rw [act?, hfind] at hact
      cases hact
  | some m =>
      rw [act?_of_find hfind] at hact
      cases hact
      have hmem := List.mem_of_find?_eq_some hfind
      rw [← name_of_find? hfind] at hother
      exact ⟨spares_acted htidy h hmem hother, acted_now hub m, team?_acted_of_ne htidy hother⟩

/-- What is done to the team itself comes to the same. -/
theorem Alike.act? (h : Alike config hub hub') (hlocal : action.Local) : ∃ other other' a,
    hub.act? config.name action = some (other, a) ∧ hub'.act? config.name action = some (other', a) ∧
      Alike config other other' := by
  obtain ⟨t, hteam, hconfig⟩ := h.runs
  have hteam' := h.team.trans hteam
  obtain ⟨m, hfind, rfl⟩ := Option.map_eq_some_iff.mp hteam
  obtain ⟨m', hfind', hsame⟩ := Option.map_eq_some_iff.mp hteam'
  have hmem := List.mem_of_find?_eq_some hfind
  have hmem' := List.mem_of_find?_eq_some hfind'
  have hnamed := h.secludes.named
  have hsees := h.sees
  rw [← hconfig] at hnamed hsees
  obtain ⟨hresult, hend⟩ := hlocal _ _ hub.host.now m.team hnamed hsees
  rw [hconfig] at hend
  have hresult' : (action hub'.host.files hub'.host.now m'.team).2 =
      (action hub.host.files hub.host.now m.team).2 := by
    rw [hsame, h.now]
    exact hresult
  have hfiles' : (action hub'.host.files hub'.host.now m'.team).1 =
      (action hub'.host.files hub.host.now m.team).1 := by
    rw [hsame, h.now]
  -- Both hubs log and publish what was done, each in its own way.
  have hnotified := spares_notified htidy h.secludes hmem
  have hnotified' := spares_notified htidy h.secludes' hmem'
  rw [hfiles'] at hnotified'
  have hlater := hend.spared hnotified.files hnotified'.files
  have hstays := stays_acted htidy h.secludes hmem
  have hstays' := stays_acted htidy h.secludes' hmem'
  refine ⟨hub.acted m action, hub'.acted m' action, (perform hub.host m action).2.2, act?_of_find hfind,
    ?_, ?_⟩
  · rw [act?_of_find hfind']
    exact congrArg (fun a => some (hub'.acted m' action, a)) (congrArg (·.2.2) hresult')
  · exact {
      secludes := h.secludes.stays hstays fun path hfile => (hlater path hfile).1
      secludes' := h.secludes'.stays hstays' fun path hfile => (hlater path hfile).2.1
      runs := ⟨_, team?_acted htidy hfind,
        (htidy hub.host.files hub.host.now m.team).1.trans hconfig⟩
      team := by
        rw [team?_acted htidy hfind, team?_acted htidy hfind', hresult']
      now := (acted_now hub' m').trans (h.now.trans (acted_now hub m).symm)
      hosts := h.hosts.stays hstays.host hstays'.host
      names := hstays'.names.trans (h.names.trans hstays.names.symm)
      sees := hlater }

end Act

/-! ### Hooks -/

end Hub

theorem Hook.tidy_action (hook : Hook) : hook.action.Tidy := by
  intro fs now t
  cases hook with
  | cancelAll => exact ⟨rfl, .inl rfl⟩
  | injectRandom => exact ⟨congrArg (·.1) (t.repertoire_injectRandom now), .inl rfl⟩
  | reset => exact TeamAction.tidy_call .reset fs now t
  | randomInputs on => exact ⟨rfl, .inl rfl⟩

theorem Hook.local_action (hook : Hook) : hook.action.Local := by
  intro fs fs' now t hnamed h
  cases hook with
  | cancelAll => exact ⟨rfl, h⟩
  | injectRandom => exact ⟨rfl, h⟩
  | reset => exact TeamAction.local_call .reset fs fs' now t hnamed h
  | randomInputs on => exact ⟨rfl, h⟩

/-- What a report says about a team. -/
def HookReport.about (report : HookReport) (name : String) : List FailedTeam :=
  report.failed.filter fun failed => failed.name == name

theorem HookReport.about_add_of_ne {report : HookReport} {name other : String} (hother : other ≠ name)
    (result : Except TeamError Unit) : (report.add other result).about name = report.about name := by
  cases result with
  | ok done => rfl
  | error error => simp [add, about, hother]

theorem HookReport.about_add {report report' : HookReport} {name : String}
    (h : report'.about name = report.about name) (other : String) (result : Except TeamError Unit) :
    (report'.add other result).about name = (report.add other result).about name := by
  cases result with
  | ok done => exact h
  | error error =>
      simp only [add, about, List.filter_append]
      exact congrArg (· ++ _) h

namespace Hub

/-- Applies a hook to the team of a name, if there is one. -/
def hooked (hook : Hook) (done : Hub × HookReport) (name : String) : Hub × HookReport :=
  match done.1.act? name hook.action with
  | some (hub, result) => (hub, done.2.add name result)
  | none => done

theorem applyHook_eq_foldl (hook : Hook) (hub : Hub) (report : HookReport) (names : List String) :
    hub.applyHook hook report names = names.foldl (hooked hook) (hub, report) := by
  induction names generalizing hub report with
  | nil => rfl
  | cons name rest ih =>
      rw [applyHook, List.foldl_cons, hooked]
      cases hact : hub.act? name hook.action with
      | none => exact ih hub report
      | some done => exact ih done.1 (report.add name done.2)

variable (hook : Hook) {report report' : HookReport} {name : String}

theorem passes_hooked (h : Secludes config hub) (hother : name ≠ config.name) (report : HookReport) :
    Passes config hub (hooked hook (hub, report) name).1 ∧
      (hooked hook (hub, report) name).2.about config.name = report.about config.name := by
  rw [hooked]
  cases hact : hub.act? name hook.action with
  | none => exact ⟨.refl config hub, rfl⟩
  | some done =>
      exact ⟨passes_act? hook.tidy_action h hother hact, HookReport.about_add_of_ne hother done.2⟩

theorem Alike.hooked (h : Alike config hub hub')
    (hreport : report'.about config.name = report.about config.name) (name : String) :
    Alike config (hooked hook (hub, report) name).1 (Hub.hooked hook (hub', report') name).1 ∧
      (Hub.hooked hook (hub', report') name).2.about config.name =
        (Hub.hooked hook (hub, report) name).2.about config.name := by
  by_cases hown : name = config.name
  · subst hown
    obtain ⟨other, other', result, hact, hact', hlater⟩ := h.act? hook.tidy_action hook.local_action
    simp only [Hub.hooked, hact, hact']
    exact ⟨hlater, HookReport.about_add hreport _ result⟩
  · obtain ⟨hpasses, hsame⟩ := passes_hooked hook h.secludes hown report
    obtain ⟨hpasses', hsame'⟩ := passes_hooked hook h.secludes' hown report'
    exact ⟨h.passes hpasses hpasses', hsame'.trans (hreport.trans hsame.symm)⟩

theorem Alike.applyHook (h : Alike config hub hub')
    (hreport : report'.about config.name = report.about config.name) (names : List String) :
    Alike config (hub.applyHook hook report names).1 (hub'.applyHook hook report' names).1 ∧
      (hub'.applyHook hook report' names).2.about config.name =
        (hub.applyHook hook report names).2.about config.name := by
  rw [applyHook_eq_foldl, applyHook_eq_foldl]
  induction names generalizing hub hub' report report' with
  | nil => exact ⟨h, hreport⟩
  | cons name rest ih =>
      obtain ⟨hlater, hsame⟩ := h.hooked hook hreport name
      exact ih hlater hsame

/-! ### Time -/

theorem runs_settle (now : Time) (h : Secludes config hub) (hruns : Runs config hub) :
    Runs config (settle now hub) := by
  obtain ⟨t, hteam, hconfig⟩ := hruns
  rw [Runs, team?_settle now h, hteam]
  exact ⟨_, rfl, (t.settle_config now _ _).trans hconfig⟩

/-- A hub, and what the worker of one of its teams was handed. -/
structure Watched where
  hub : Hub
  received : List (Time × Edge)

namespace Watched

/-- Everything that is due at a moment, with what the worker of the team of a name is handed for it. -/
def settle (name : String) (now : Time) (w : Watched) : Watched where
  hub := w.hub.settle now
  received := w.received ++ (w.hub.team? name).toList.flatMap fun t => t.handed now

def nextDue? (w : Watched) : Option Time := w.hub.nextDue?

def advance (name : String) (ms : Nat) (w : Watched) : Watched :=
  Clock.advance (settle name) nextDue? (w.hub.host.now + ms) w.hub.host.now w

/-- The team of a name by itself. -/
def solo (name : String) (w : Watched) : Solo := { team := w.hub.team? name, received := w.received }

variable {w w' : Watched}

/-- A hub that is watched does as it would. -/
theorem advance_hub (name : String) (ms : Nat) (w : Watched) :
    (w.advance name ms).hub = w.hub.advance ms :=
  Clock.advance_related (R := fun (w : Watched) hub => w.hub = hub)
    (fun now _ _ h => congrArg (Hub.settle now) h) (fun _ _ h => congrArg Hub.nextDue? h) _ _ rfl

theorem settle_solo (h : Secludes config w.hub) (name : String) (now : Time) :
    (w.settle name now).solo name =
      (w.solo name).settle w.hub.host.network w.hub.host.device.failing now := by
  rw [solo, settle, team?_settle now h]
  rfl

/-- As time passes, a team does what it would do by itself. -/
theorem advance_solo (h : Secludes config w.hub) (hruns : Runs config w.hub) (ms : Nat) :
    (Spares config w.hub (w.advance config.name ms).hub ∧ Runs config (w.advance config.name ms).hub) ∧
      (w.advance config.name ms).hub.host.now = w.hub.host.now + ms ∧
      (w.advance config.name ms).solo config.name =
        Solo.settle w.hub.host.network w.hub.host.device.failing (w.hub.host.now + ms)
          (Clock.everyMoment (Solo.settle w.hub.host.network w.hub.host.device.failing) w.hub.host.now ms
            (w.solo config.name)) := by
  have hsettle : ∀ now (v : Watched), Spares config w.hub v.hub ∧ Runs config v.hub →
      (Spares config w.hub (v.settle config.name now).hub ∧ Runs config (v.settle config.name now).hub) ∧
        (v.settle config.name now).solo config.name =
          (v.solo config.name).settle w.hub.host.network w.hub.host.device.failing now := by
    rintro now v ⟨hv, hthere⟩
    have hsecludes := h.spares hv
    refine ⟨⟨hv.trans (spares_settle now hsecludes), runs_settle now hsecludes hthere⟩, ?_⟩
    rw [settle_solo hsecludes, hv.stays.host.network, hv.stays.host.failing]
  have hnext : ∀ v : Watched, Spares config w.hub v.hub ∧ Runs config v.hub → ∀ due,
      (v.solo config.name).nextDue? = some due →
        ∃ sooner, v.nextDue? = some sooner ∧ sooner ≤ due := by
    intro v _ due hdue
    obtain ⟨t, hteam, hdue⟩ := Option.bind_eq_some_iff.mp hdue
    exact nextDue?_le hteam hdue
  obtain ⟨hspares, hsolo⟩ := Clock.advance_part hsettle hnext
    (Solo.idles_settle w.hub.host.network w.hub.host.device.failing) w.hub.host.now ms
    (s := w) ⟨.refl config w.hub, hruns⟩
  exact ⟨hspares, Hub.settle_now .., hsolo⟩

/-- Time passes alike for a team, wherever the clocks stop for others. -/
theorem advance_alike (h : Alike config w.hub w'.hub) (hreceived : w'.received = w.received)
    (ms : Nat) : Alike config (w.advance config.name ms).hub (w'.advance config.name ms).hub ∧
      (w'.advance config.name ms).received = (w.advance config.name ms).received := by
  obtain ⟨⟨hspares, hruns⟩, hnow, hsolo⟩ := advance_solo h.secludes h.runs ms
  obtain ⟨⟨hspares', -⟩, hnow', hsolo'⟩ := advance_solo h.secludes' h.runs' ms
  have hbegin : w'.solo config.name = w.solo config.name := by
    rw [solo, solo, h.team, hreceived]
  rw [h.now, h.hosts.network, h.hosts.failing, hbegin] at hsolo'
  have hend := hsolo'.trans hsolo.symm
  have hteam : (w'.advance config.name ms).hub.team? config.name =
      (w.advance config.name ms).hub.team? config.name := congrArg Solo.team hend
  refine ⟨?_, congrArg Solo.received hend⟩
  exact {
    secludes := h.secludes.spares hspares
    secludes' := h.secludes'.spares hspares'
    runs := hruns
    team := hteam
    now := by rw [hnow', hnow, h.now]
    hosts := h.hosts.stays hspares.stays.host hspares'.stays.host
    names := hspares'.stays.names.trans (h.names.trans hspares.stays.names.symm)
    sees := h.sees.spared hspares.files hspares'.files }

end Watched

end Hub

end CrowdPad
