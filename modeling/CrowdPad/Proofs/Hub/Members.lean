import CrowdPad.Hub.Hook
import CrowdPad.Proofs.Hub.Host

/-! What is done to one team of a hub, and what time does to all, seen from another team. It goes on as
it would by itself, and its macro file is not touched, as long as neither the macro files of others nor
the files of logs and events come near it. -/

namespace CrowdPad

namespace Hub

variable {config : TeamConfig} {hub hub' : Hub}

/-- Whether what a hub and its teams go by stays as it is, apart from the time and the files. -/
structure Stays (hub hub' : Hub) : Prop where
  host : Host.Stays hub.host hub'.host
  names : hub'.names = hub.names
  members : ∀ m' ∈ hub'.members, ∃ m ∈ hub.members,
    m'.team.config = m.team.config ∧ m'.telemetry = m.telemetry

theorem Stays.refl (hub : Hub) : Stays hub hub := ⟨.refl hub.host, rfl, fun m hm => ⟨m, hm, rfl, rfl⟩⟩

theorem Stays.trans {hub'' : Hub} (hfirst : Stays hub hub') (hsecond : Stays hub' hub'') :
    Stays hub hub'' := by
  refine ⟨hfirst.host.trans hsecond.host, hsecond.names.trans hfirst.names, fun m'' hm'' => ?_⟩
  obtain ⟨m', hm', hconfig', htelemetry'⟩ := hsecond.members m'' hm''
  obtain ⟨m, hm, hconfig, htelemetry⟩ := hfirst.members m' hm'
  exact ⟨m, hm, hconfig'.trans hconfig, htelemetry'.trans htelemetry⟩

/-- Whether the macro file of a team can be told from all other files that a hub writes. -/
structure Secludes (config : TeamConfig) (hub : Hub) : Prop where
  named : config.Named
  sturdy : ∀ path, config.macros.file = some path → hub.host.files.Sturdy path
  teams : ∀ m ∈ hub.members, m.name ≠ config.name → config.Shuns m.team.config hub.host.files
  logs : ∀ m ∈ hub.members, ∀ q, m.logPath? = some q → config.Ignores hub.host.files q
  events : ∀ q, hub.host.sink.path? = some q → config.Ignores hub.host.files q

theorem Secludes.stays (h : Secludes config hub) (hstays : Stays hub hub')
    (hsturdy : ∀ path, config.macros.file = some path → hub'.host.files.Sturdy path) :
    Secludes config hub' where
  named := h.named
  sturdy := hsturdy
  teams := by
    intro m' hm' hother
    obtain ⟨m, hm, hconfig, -⟩ := hstays.members m' hm'
    rw [Member.name, Team.name, hconfig] at hother
    rw [hconfig]
    exact (h.teams m hm hother).of_home hstays.host.home
  logs := by
    intro m' hm' q hq
    obtain ⟨m, hm, -, htelemetry⟩ := hstays.members m' hm'
    rw [Member.logPath?, htelemetry] at hq
    exact (h.logs m hm q hq).of_home hstays.host.home
  events := by
    intro q hq
    rw [hstays.host.sink] at hq
    exact (h.events q hq).of_home hstays.host.home

/-- What changes nothing for a team. -/
structure Spares (config : TeamConfig) (hub hub' : Hub) : Prop where
  stays : Stays hub hub'
  files : config.Spared hub.host.files hub'.host.files

theorem Spares.refl (config : TeamConfig) (hub : Hub) : Spares config hub hub :=
  ⟨.refl hub, .refl config hub.host.files⟩

theorem Spares.trans {hub'' : Hub} (hfirst : Spares config hub hub')
    (hsecond : Spares config hub' hub'') : Spares config hub hub'' :=
  ⟨hfirst.stays.trans hsecond.stays, hfirst.files.trans hsecond.files⟩

theorem Secludes.spares (h : Secludes config hub) (hspares : Spares config hub hub') :
    Secludes config hub' :=
  h.stays hspares.stays fun path hfile => (hspares.files.file path hfile (h.sturdy path hfile)).1

theorem name_of_find? {members : List Member} {m : Member} {name : String}
    (h : members.find? (fun m => m.name == name) = some m) : m.name = name := by
  have hfound := List.find?_some h
  exact beq_iff_eq.mp hfound

/-- Where every member is changed on its own, a team of a name is the changed team of that name. -/
theorem find?_map_members {members : List Member} {f : Member → Member}
    (hnames : ∀ m, (f m).name = m.name) (name : String) :
    (members.map f).find? (fun m => m.name == name) =
      (members.find? fun m => m.name == name).map f := by
  rw [List.find?_map]
  congr 2
  funext m
  exact congrArg (· == name) (hnames m)

/-! ### Something is done to a team -/

section Perform

variable {α : Type} {action : TeamAction α} (htidy : action.Tidy) {m : Member}

include htidy

/-- What is logged and published about it comes after what it does to the files. -/
theorem spares_notified (h : Secludes config hub) (hm : m ∈ hub.members) :
    Host.Spares config
      { hub.host with files := (action hub.host.files hub.host.now m.team).1 }
      (perform hub.host m action).1 := by
  refine Host.spares_notifyAll h.named (fun q hq => ?_) _
  exact (h.logs m hm q hq).of_home (htidy.home hub.host.files hub.host.now m.team)

theorem name_perform (host : Host) (m : Member) : (perform host m action).2.1.name = m.name :=
  congrArg TeamConfig.name (htidy host.files host.now m.team).1

/-- A hub in which something was done to a member. -/
def acted (hub : Hub) (m : Member) (action : TeamAction α) : Hub :=
  { hub with
    host := (perform hub.host m action).1
    members := hub.members.map fun other =>
      if other.name = m.name then (perform hub.host m action).2.1 else other }

omit htidy in
theorem act?_of_find {name : String} (hfind : hub.members.find? (fun m => m.name == name) = some m) :
    hub.act? name action = some (hub.acted m action, (perform hub.host m action).2.2) := by
  rw [act?, hfind, acted, name_of_find? hfind]

omit htidy in
theorem acted_now (hub : Hub) (m : Member) : (hub.acted m action).host.now = hub.host.now :=
  Host.notifyAll_now ..

theorem name_acted (m other : Member) :
    (if other.name = m.name then (perform hub.host m action).2.1 else other).name = other.name := by
  split
  · rename_i hsame
    rw [name_perform htidy, hsame]
  · rfl

/-- What is done to a member leaves all names. -/
theorem names_acted (hub : Hub) (m : Member) : (hub.acted m action).names = hub.names := by
  rw [names, names, acted, List.map_map]
  exact List.map_congr_left fun other _ => name_acted htidy m other

theorem stays_acted (h : Secludes config hub) (hm : m ∈ hub.members) :
    Stays hub (hub.acted m action) := by
  have hnotified := (spares_notified htidy h hm).stays
  have hhome := htidy.home hub.host.files hub.host.now m.team
  refine ⟨{ hnotified with home := hnotified.home.trans hhome }, names_acted htidy hub m, ?_⟩
  intro m' hm'
  obtain ⟨other, hother, rfl⟩ := List.mem_map.mp hm'
  split
  · exact ⟨m, hm, (htidy hub.host.files hub.host.now m.team).1, rfl⟩
  · exact ⟨other, hother, rfl, rfl⟩

/-- What is done to another team is nothing to a team. -/
theorem spares_acted (h : Secludes config hub) (hm : m ∈ hub.members) (hother : m.name ≠ config.name) :
    Spares config hub (hub.acted m action) := by
  have hnotified := (spares_notified htidy h hm).files
  refine ⟨stays_acted htidy h hm, ?_⟩
  exact (htidy.spared h.named (h.teams m hm hother) hub.host.now).trans hnotified

theorem team?_acted_of_ne {name : String} (hother : m.name ≠ name) :
    (hub.acted m action).team? name = hub.team? name := by
  rw [team?, acted, find?_map_members (fun other => name_acted htidy m other), Option.map_map, team?]
  cases hfind : hub.members.find? fun m => m.name == name with
  | none => rfl
  | some found =>
      rw [Option.map_some, Option.map_some, Function.comp_apply,
        if_neg fun hsame => hother (hsame.symm.trans (name_of_find? hfind))]

theorem team?_acted {name : String} (hfind : hub.members.find? (fun m => m.name == name) = some m) :
    (hub.acted m action).team? name =
      some (action hub.host.files hub.host.now m.team).2.1 := by
  rw [team?, acted, find?_map_members (fun other => name_acted htidy m other), hfind, Option.map_map,
    Option.map_some, Function.comp_apply, if_pos rfl]
  rfl

end Perform

/-! ### Time -/

/-- A member behind all that was due for it. -/
def settled (now : Time) (network : Attempt) (failing : List String) (m : Member) : Member :=
  { m with team := (m.team.settle now network { failing }).1 }

theorem config_settled (now : Time) (network : Attempt) (failing : List String) (m : Member) :
    (settled now network failing m).team.config = m.team.config :=
  m.team.settle_config now network { failing }

theorem name_settled (now : Time) (network : Attempt) (failing : List String) (m : Member) :
    (settled now network failing m).name = m.name :=
  congrArg TeamConfig.name (config_settled now network failing m)

theorem settleMember_member (host : Host) (m : Member) :
    (settleMember host m).2.1 = settled host.now host.network host.device.failing m := by
  have hsame : (m.team.settle host.now host.network host.device).1 =
      (m.team.settle host.now host.network { failing := host.device.failing }).1 :=
    m.team.settle_congr host.now host.network rfl
  exact congrArg (fun team => { m with team }) hsame

theorem spares_settleMember {host : Host} {m : Member} (hnamed : config.Named)
    (hlog : ∀ q, m.logPath? = some q → config.Ignores host.files q) :
    Host.Spares config host (settleMember host m).1 := by
  have hworked : Host.Spares config host
      { host with device := (m.team.settle host.now host.network host.device).2.1 } :=
    ⟨⟨rfl, rfl, m.team.settle_failing host.now host.network host.device, rfl, rfl⟩, .refl config _⟩
  refine hworked.trans (Host.spares_notifyAll (m := m) hnamed ?_ _)
  exact hlog

theorem settleMember_now (host : Host) (m : Member) : (settleMember host m).1.now = host.now :=
  Host.notifyAll_now ..

theorem settleMembers_now (host : Host) (members : List Member) :
    (settleMembers host members).1.now = host.now := by
  induction members generalizing host with
  | nil => rfl
  | cons m rest ih => exact (ih (settleMember host m).1).trans (settleMember_now host m)

theorem settleMembers_spec (hnamed : config.Named) (members : List Member) (host : Host)
    (hlogs : ∀ m ∈ members, ∀ q, m.logPath? = some q → config.Ignores host.files q) :
    Host.Spares config host (settleMembers host members).1 ∧
      (settleMembers host members).2.1 =
        members.map (settled host.now host.network host.device.failing) := by
  induction members generalizing host with
  | nil => exact ⟨.refl config host, rfl⟩
  | cons m rest ih =>
      have hspares := spares_settleMember hnamed (hlogs m List.mem_cons_self)
      obtain ⟨hrest, hmembers⟩ := ih (settleMember host m).1 fun m' hm' q hq =>
        (hlogs m' (List.mem_cons_of_mem m hm') q hq).of_home hspares.files.home
      refine ⟨hspares.trans hrest, ?_⟩
      rw [settleMember_now, hspares.stays.network, hspares.stays.failing] at hmembers
      rw [List.map_cons, ← settleMember_member, ← hmembers]
      rfl

variable (now : Time)

theorem settle_now (hub : Hub) : (settle now hub).host.now = now :=
  settleMembers_now { hub.host with now } hub.members

theorem settle_members (h : Secludes config hub) : (settle now hub).members =
    hub.members.map (settled now hub.host.network hub.host.device.failing) :=
  (settleMembers_spec h.named hub.members { hub.host with now } h.logs).2

theorem spares_settle (h : Secludes config hub) : Spares config hub (settle now hub) := by
  obtain ⟨hspares, -⟩ := settleMembers_spec h.named hub.members { hub.host with now } h.logs
  have hevents : ∀ q, (settleMembers { hub.host with now } hub.members).1.sink.path? = some q →
      config.Ignores (settleMembers { hub.host with now } hub.members).1.files q := fun q hq =>
    (h.events q (hspares.stays.sink.symm.trans hq)).of_home hspares.files.home
  have hflushed := hspares.trans (Host.spares_flush h.named hevents)
  refine ⟨⟨?_, ?_, ?_⟩, hflushed.files⟩
  · exact ⟨hflushed.stays.epochMs, hflushed.stays.network, hflushed.stays.failing, hflushed.stays.sink,
      hflushed.stays.home⟩
  · rw [names, names, settle_members now h, List.map_map]
    exact List.map_congr_left fun m _ => name_settled now _ _ m
  · intro m' hm'
    rw [settle_members now h] at hm'
    obtain ⟨m, hm, rfl⟩ := List.mem_map.mp hm'
    exact ⟨m, hm, config_settled now _ _ m, rfl⟩

theorem team?_settle (h : Secludes config hub) (name : String) :
    (settle now hub).team? name = (hub.team? name).map fun t =>
      (t.settle now hub.host.network { failing := hub.host.device.failing }).1 := by
  rw [team?, settle_members now h, find?_map_members (name_settled now _ _), team?, Option.map_map,
    Option.map_map]
  rfl

/-- A hub goes on no later than each of its teams. -/
theorem nextDue?_le {name : String} {t : Team} (hteam : hub.team? name = some t) {due : Time}
    (hdue : t.nextDue? = some due) : ∃ sooner, hub.nextDue? = some sooner ∧ sooner ≤ due := by
  obtain ⟨m, hfind, rfl⟩ := Option.map_eq_some_iff.mp hteam
  have hmem : due ∈ hub.members.filterMap fun m => m.team.nextDue? :=
    List.mem_filterMap.mpr ⟨m, List.mem_of_find?_eq_some hfind, hdue⟩
  rw [nextDue?]
  cases hmin : (hub.members.filterMap fun m => m.team.nextDue?).min? with
  | none =>
      rw [List.min?_eq_none_iff] at hmin
      rw [hmin] at hmem
      cases hmem
  | some sooner => exact ⟨sooner, rfl, (List.min?_eq_some_iff.mp hmin).2 due hmem⟩

end Hub

end CrowdPad
