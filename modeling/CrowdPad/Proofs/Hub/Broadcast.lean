import CrowdPad.Proofs.Hub.Separation
import CrowdPad.Proofs.Hub.Startup

/-! Hooks for all teams. A hook that is meant for all comes to the same as that hook for one team after
the other, whichever of them fail: its report is put together from theirs, and every team gets it once,
as it is when its turn comes. This takes different names, which the teams of a hub have all the time. -/

namespace CrowdPad

namespace HookReport

/-- A report on some teams and one on others. -/
def join (report other : HookReport) : HookReport where
  affected := report.affected + other.affected
  failed := report.failed ++ other.failed

/-- Reports on single teams, put together. -/
def total (reports : List HookReport) : HookReport where
  affected := (reports.map (·.affected)).sum
  failed := reports.flatMap (·.failed)

/-- How a hook went on one team alone. -/
def single (name : String) (result : Except TeamError Unit) : HookReport :=
  ({} : HookReport).add name result

theorem add_eq_join (report : HookReport) (name : String) (result : Except TeamError Unit) :
    report.add name result = report.join (single name result) := by
  cases result with
  | ok done => simp [single, add, join]
  | error error => simp [single, add, join]

@[simp] theorem empty_join (report : HookReport) : ({} : HookReport).join report = report := by
  simp [join]

@[simp] theorem join_total_nil (report : HookReport) : report.join (total []) = report := by
  simp [join, total]

theorem join_assoc (report other another : HookReport) :
    (report.join other).join another = report.join (other.join another) := by
  simp [join, Nat.add_assoc]

/-- A team is either affected or on record. -/
theorem size_single (name : String) (result : Except TeamError Unit) :
    (single name result).affected + (single name result).failed.length = 1 := by
  cases result <;> rfl

theorem total_cons (first : HookReport) (rest : List HookReport) :
    total (first :: rest) = first.join (total rest) := by
  simp [total, join]

theorem size_total {names : List String} {results : List (Except TeamError Unit)}
    (h : results.length = names.length) :
    (total (List.zipWith single names results)).affected +
      (total (List.zipWith single names results)).failed.length = names.length := by
  induction names generalizing results with
  | nil => rfl
  | cons name rest ih =>
      obtain ⟨result, others, rfl⟩ := List.exists_cons_of_length_eq_add_one h
      have hrest := ih (Nat.succ.inj h)
      have hfirst := size_single name result
      rw [List.zipWith_cons_cons, total_cons, join, List.length_append, List.length_cons]
      lia

end HookReport

namespace Hub

variable {hub : Hub}

/-! ### Names -/

/-- What is done to a team leaves all names. -/
theorem names_act? {α : Type} {action : TeamAction α} (htidy : action.Tidy) {name : String} {later : Hub}
    {a : α} (h : hub.act? name action = some (later, a)) : later.names = hub.names := by
  cases hfind : hub.members.find? fun m => m.name == name with
  | none =>
      rw [act?, hfind] at h
      cases h
  | some m =>
      rw [act?_of_find hfind] at h
      cases h
      exact names_acted htidy hub m

theorem names_ask {α : Type} {action : TeamAction α} (htidy : action.Tidy) (hub : Hub) (name : String)
    (answer : α → HubAnswer) : (hub.ask name action answer).1.names = hub.names := by
  rw [ask]
  cases hact : hub.act? name action with
  | none => rfl
  | some done => exact names_act? htidy hact

theorem names_change {f : Team → Team × List Notice} (hf : ∀ t, (f t).1.config = t.config) (hub : Hub)
    (name : String) : (hub.change name f).names = hub.names := by
  unfold change
  split
  · rename_i done _ hact
    exact names_act? (TeamAction.tidy_of_team (fun _ t => ((f t).1, (f t).2, ())) fun _ t => hf t) hact
  · rfl

theorem names_settleMembers (host : Host) (members : List Member) :
    (settleMembers host members).2.1.map Member.name = members.map Member.name := by
  induction members generalizing host with
  | nil => rfl
  | cons m rest ih =>
      have hfirst : (settleMember host m).2.1.name = m.name := by
        rw [settleMember_member]
        exact name_settled ..
      exact congrArg₂ List.cons hfirst (ih (settleMember host m).1)

theorem names_settle (now : Time) (hub : Hub) : (settle now hub).names = hub.names :=
  names_settleMembers { hub.host with now } hub.members

theorem names_applyHook (hook : Hook) (hub : Hub) (report : HookReport) (names : List String) :
    (hub.applyHook hook report names).1.names = hub.names := by
  induction names generalizing hub report with
  | nil => rfl
  | cons name rest ih =>
      rw [applyHook]
      cases hact : hub.act? name hook.action with
      | none => exact ih hub report
      | some done => exact (ih done.1 _).trans (names_act? hook.tidy_action hact)

theorem names_control {later : Hub} {team : Option String} {hook : Hook} {report : HookReport}
    (h : hub.control team hook = .ok (later, report)) : later.names = hub.names := by
  have happlied : ∀ names, hub.applyHook hook {} names = (later, report) → later.names = hub.names := by
    intro names hend
    have hkept := names_applyHook hook hub {} names
    rw [hend] at hkept
    exact hkept
  cases team with
  | none => exact happlied hub.names (Except.ok.inj h)
  | some name =>
      rw [control] at h
      split at h
      · exact happlied [name] (Except.ok.inj h)
      · cases h

/-- Whatever happens to a hub, the names of its teams and their order stay. -/
theorem names_step (hub : Hub) (σ : HubStep) : (hub.step σ).1.names = hub.names := by
  cases σ with
  | route name author text shift =>
      rw [step_route]
      exact names_ask (TeamAction.tidy_message author text shift) ..
  | control team hook =>
      rw [step]
      cases hcontrol : hub.control team hook with
      | error error => rfl
      | ok done => exact names_control hcontrol
  | call name call => exact names_ask (TeamAction.tidy_call call) ..
  | restore name stored => exact names_ask (TeamAction.tidy_restore stored) ..
  | reseed name seed => exact names_ask (TeamAction.tidy_reseed seed) ..
  | surround network failing => rfl
  | advance ms =>
      exact Clock.advance_keeps (P := fun later : Hub => later.names = hub.names)
        (fun now later h => (names_settle now later).trans h) _ _ rfl

theorem names_shutdownTeam (graceMs : Nat) (hub : Hub) (name : String) :
    (hub.shutdownTeam graceMs name).names = hub.names := by
  rw [shutdownTeam]
  refine (names_change (fun _ => rfl) ..).trans ((names_change (fun _ => rfl) ..).trans ?_)
  exact Clock.wait_keeps (P := fun later : Hub => later.names = hub.names)
    (fun now later h => (names_settle now later).trans h) _ _ _ (names_change (fun _ => rfl) ..)

theorem names_shutdown (hub : Hub) (graceMs : Nat) : (hub.shutdown graceMs).names = hub.names := by
  refine (names_settle ..).trans ?_
  exact List.foldlRecOn hub.names _ (motive := fun later : Hub => later.names = hub.names) rfl
    fun later h name _ => (names_shutdownTeam graceMs later name).trans h

/-- A new team has a new name. -/
theorem nodup_insert {m : Member} {later : Hub} (h : hub.insert m = .ok later)
    (hnames : hub.names.Nodup) : later.names.Nodup := by
  rw [insert] at h
  split at h
  · cases h
  · rename_i hnew
    cases h
    rw [names, List.map_append, List.map_singleton]
    rw [List.contains_iff_mem] at hnew
    exact List.nodup_append_comm.mp (List.nodup_cons.mpr ⟨hnew, hnames⟩)

theorem nodup_ofConfig (config : ProgramConfig) (publishes : Bool) (host : Host) (seed : Nat) :
    (ofConfig config publishes host seed).names.Nodup := by
  rw [ofConfig]
  have hbegun := addEntries_eq publishes config seed
    ({ host }, Catalogue.ofSources host.files config.profiles) config.teams
  rw [hbegun]
  exact nodup_begun List.nodup_nil

/-- A hub that can come about: its teams were declared or added, and since then anything has happened to
it. -/
inductive Reachable : Hub → Prop where
  | ofConfig (config : ProgramConfig) (publishes : Bool) (host : Host) (seed : Nat) :
      Reachable (ofConfig config publishes host seed)
  | insert {hub later : Hub} {m : Member} (h : Reachable hub) (hinsert : hub.insert m = .ok later) :
      Reachable later
  | step {hub : Hub} (h : Reachable hub) (σ : HubStep) : Reachable (hub.step σ).1
  | shutdown {hub : Hub} (h : Reachable hub) (graceMs : Nat) : Reachable (hub.shutdown graceMs)

/-- No two teams of a hub that can come about have one name. -/
theorem Reachable.nodup (h : hub.Reachable) : hub.names.Nodup := by
  induction h with
  | ofConfig config publishes host seed => exact nodup_ofConfig config publishes host seed
  | insert _ hinsert ih => exact nodup_insert hinsert ih
  | step _ σ ih => exact (names_step _ σ).symm ▸ ih
  | shutdown _ graceMs ih => exact (names_shutdown _ graceMs).symm ▸ ih

/-! ### One team after the other -/

/-- Applies a hook to single teams one after the other, and keeps each report. -/
def controlEach (hook : Hook) (hub : Hub) : List String → Except TeamError (Hub × List HookReport)
  | [] => .ok (hub, [])
  | name :: rest => do
    let (hub, report) ← hub.control (some name) hook
    let (hub, reports) ← hub.controlEach hook rest
    return (hub, report :: reports)

/-- Does something to members one after the other, each of them once, with what was done before it to
the host. -/
def performAll {α : Type} (action : TeamAction α) (host : Host) :
    List Member → Host × List Member × List α
  | [] => (host, [], [])
  | m :: rest =>
    let (host, m, a) := perform host m action
    let (host, members, results) := performAll action host rest
    (host, m :: members, a :: results)

theorem length_performAll {α : Type} (action : TeamAction α) (host : Host) (members : List Member) :
    (performAll action host members).2.2.length = members.length := by
  induction members generalizing host with
  | nil => rfl
  | cons m rest ih => exact congrArg (· + 1) (ih (perform host m action).1)

/-- A hook that fails leaves the team and the host as they are. -/
theorem perform_eq_of_error {host : Host} {m : Member} {hook : Hook} {error : TeamError}
    (h : (perform host m hook.action).2.2 = .error error) :
    perform host m hook.action = (host, m, .error error) := by
  cases hook with
  | reset =>
      have hreset : (Hook.reset.action host.files host.now m.team).2.2.2 = .error error := h
      rw [Hook.action, TeamAction.reset, TeamAction.ofExcept] at hreset
      cases hdone : m.team.reset host.files host.now with
      | ok done => simp [hdone, Except.map] at hreset
      | error fault =>
          obtain rfl : fault = error := by simpa [hdone, Except.map] using hreset
          have hkept : host.notifyAll m.telemetry [] = host := by
            cases m.telemetry <;> rfl
          simp [perform, Hook.action, TeamAction.reset, TeamAction.ofExcept, hdone, Except.map, hkept]
  | _ => cases h

variable (hook : Hook)

/-- Where the names differ, what is done to a team of a name is done to one member. -/
theorem act?_of_nodup {α : Type} (action : TeamAction α) {before behind : List Member} {m : Member}
    (hmembers : hub.members = before ++ m :: behind) (hnames : hub.names.Nodup) :
    hub.act? m.name action = some ({ hub with
      host := (perform hub.host m action).1
      members := before ++ (perform hub.host m action).2.1 :: behind },
      (perform hub.host m action).2.2) := by
  rw [names, hmembers, List.map_append, List.map_cons] at hnames
  obtain ⟨-, hbehind, hapart⟩ := List.nodup_append.mp hnames
  have hother : ∀ other ∈ before ++ behind, other.name ≠ m.name := by
    intro other hmem
    rcases List.mem_append.mp hmem with hmem | hmem
    · exact hapart _ (List.mem_map_of_mem hmem) _ List.mem_cons_self
    · exact fun hsame => (List.nodup_cons.mp hbehind).1 (hsame ▸ List.mem_map_of_mem hmem)
  have hkept : ∀ others ⊆ before ++ behind, others.map (fun other =>
      if other.name = m.name then (perform hub.host m action).2.1 else other) = others := by
    intro others hsub
    have hsame : ∀ other ∈ others,
        (if other.name = m.name then (perform hub.host m action).2.1 else other) = id other :=
      fun other hmem => if_neg (hother other (hsub hmem))
    rw [List.map_congr_left hsame, List.map_id]
  have hfind : hub.members.find? (fun other => other.name == m.name) = some m := by
    rw [hmembers, List.find?_append, List.find?_eq_none.mpr fun other hmem => by
      simpa using hother other (List.mem_append_left _ hmem)]
    simp
  rw [act?_of_find hfind, acted, hmembers, List.map_append, List.map_cons, if_pos rfl,
    hkept before (List.subset_append_left ..), hkept behind (List.subset_append_right ..)]

theorem control_of_act? {name : String} {later : Hub} {result : Except TeamError Unit}
    (h : hub.act? name hook.action = some (later, result)) :
    hub.control (some name) hook = .ok (later, .single name result) := by
  have hthere : hub.names.contains name := by
    cases hfind : hub.members.find? fun m => m.name == name with
    | none =>
        rw [act?, hfind] at h
        cases h
    | some m =>
        rw [List.contains_iff_mem, ← name_of_find? hfind]
        exact List.mem_map_of_mem (List.mem_of_find?_eq_some hfind)
  rw [control, if_pos hthere, applyHook, h]
  rfl

/-- A hook for some of the teams, one team after the other, and at one go. -/
theorem controlEach_eq {before behind : List Member} (hmembers : hub.members = before ++ behind)
    (hnames : hub.names.Nodup) (report : HookReport) :
    let done := performAll hook.action hub.host behind
    let later : Hub := { hub with host := done.1, members := before ++ done.2.1 }
    let reports := List.zipWith HookReport.single (behind.map Member.name) done.2.2
    hub.controlEach hook (behind.map Member.name) = .ok (later, reports) ∧
      hub.applyHook hook report (behind.map Member.name) = (later, report.join (.total reports)) := by
  induction behind generalizing hub before report with
  | nil =>
      obtain ⟨members, failed, host, ended⟩ := hub
      obtain rfl : members = before ++ [] := hmembers
      exact ⟨rfl, by simp [applyHook, performAll]⟩
  | cons m rest ih =>
      have hact := act?_of_nodup hook.action hmembers hnames
      generalize hfirst : perform hub.host m hook.action = first at hact
      obtain ⟨host, m', result⟩ := first
      have hkept := (names_act? hook.tidy_action hact).symm ▸ hnames
      have hlater : ({ hub with host, members := before ++ m' :: rest } : Hub).members =
          (before ++ [m']) ++ rest := by
        simp
      obtain ⟨heach, hall⟩ := ih hlater hkept (report.join (.single m.name result))
      simp only [List.map_cons, performAll, hfirst, List.zipWith_cons_cons, controlEach,
        control_of_act? hook hact, applyHook, hact]
      constructor
      · rw [bind_of_eq_ok rfl, bind_of_eq_ok heach, List.append_assoc]
        rfl
      · rw [HookReport.add_eq_join, hall, HookReport.total_cons, HookReport.join_assoc, List.append_assoc]
        rfl

/-- **A hook for all teams is the hook for each team.** One team after the other, whichever of them fail,
leads to the same hub with the reports that the one for all is put together from. Each team gets the
hook once and is counted once; where it fails, neither the team nor what the others go by is changed. A
hook for a team that is not there is refused, and changes nothing. -/
theorem control_all_eq_each (hub : Hub) (hook : Hook) (hnames : hub.names.Nodup) :
    let done := performAll hook.action hub.host hub.members
    let later : Hub := { hub with host := done.1, members := done.2.1 }
    let reports := List.zipWith HookReport.single hub.names done.2.2
    let report := HookReport.total reports
    hub.controlEach hook hub.names = .ok (later, reports) ∧
      hub.control none hook = .ok (later, report) ∧
      report.affected + report.failed.length = hub.members.length ∧
      (∀ host m error, (perform host m hook.action).2.2 = .error error →
        perform host m hook.action = (host, m, .error error)) ∧
      ∀ name ∉ hub.names, hub.control (some name) hook = .error (.unknownTeam name) ∧
        hub.step (.control (some name) hook) = (hub, .refused (.unknownTeam name)) := by
  intro done later reports report
  obtain ⟨heach, hall⟩ := controlEach_eq hook (List.nil_append hub.members).symm hnames {}
  rw [HookReport.empty_join] at hall
  refine ⟨heach, congrArg Except.ok hall, ?_, fun _ _ _ => perform_eq_of_error, ?_⟩
  · have hlength : done.2.2.length = hub.names.length :=
      (length_performAll ..).trans (List.length_map _).symm
    exact (HookReport.size_total hlength).trans (List.length_map _)
  · intro name hname
    have hrefused : hub.control (some name) hook = .error (.unknownTeam name) :=
      if_neg fun hthere => hname (List.contains_iff_mem.mp hthere)
    exact ⟨hrefused, by rw [step, hrefused]⟩

/-- Three teams that keep their macros, one of which cannot read its file. -/
def threeTeams : Hub where
  members := [("red", "red.json"), ("blue", "pads"), ("green", "green.json")].map fun (name, path) =>
    let m := (Station.keeping path {}).member
    { m with team := { m.team with config := { m.team.config with name } } }
  host := { files := { entries := [(["pads"], .folder)] } }

/-- How a reset goes on them. -/
def threeReports : List HookReport :=
  [{ affected := 1 },
    { failed := [{ name := "blue", error := (TeamError.storage (.read "pads" .isAFolder)).message }] },
    { affected := 1 }]

/-- That the second team cannot be reset does not keep the others from it. -/
theorem control_all_eq_each_reset : ∃ later,
    threeTeams.control none .reset = .ok (later, .total threeReports) ∧
      threeTeams.controlEach .reset ["red", "blue", "green"] = .ok (later, threeReports) ∧
      later.members.map (fun m => m.team.counters.cancellations) = [1, 0, 1] := by
  obtain ⟨heach, hall, -⟩ := control_all_eq_each threeTeams .reset (by decide)
  have hreports : List.zipWith HookReport.single threeTeams.names
      (performAll Hook.reset.action threeTeams.host threeTeams.members).2.2 = threeReports := by
    decide +kernel
  rw [hreports] at heach hall
  exact ⟨_, hall, heach, by decide +kernel⟩

end Hub

end CrowdPad
