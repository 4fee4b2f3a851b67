import CrowdPad.Proofs.Team.Sight

/-! What a host does for its teams. Notices are logged and events are published; to a team whose macro
file is away from the files of logs and events this is nothing, for it leaves all that the teams go by.
-/

namespace CrowdPad

/-- The file that events go to. -/
def EventSink.path? : EventSink → Option String
  | .file path => some path
  | _ => none

/-- The file that a member logs in. -/
def Member.logPath? (m : Member) : Option String := m.telemetry.bind fun t => t.log.map (·.path)

namespace Host

variable {config : TeamConfig} {h h' : Host}

/-- Whether what teams go by on a host stays as it is, apart from the time and the files. -/
structure Stays (h h' : Host) : Prop where
  epochMs : h'.epochMs = h.epochMs
  network : h'.network = h.network
  failing : h'.device.failing = h.device.failing
  sink : h'.sink.path? = h.sink.path?
  home : h'.files.home = h.files.home

theorem Stays.refl (h : Host) : Stays h h := ⟨rfl, rfl, rfl, rfl, rfl⟩

theorem Stays.trans {h'' : Host} (hfirst : Stays h h') (hsecond : Stays h' h'') : Stays h h'' where
  epochMs := hsecond.epochMs.trans hfirst.epochMs
  network := hsecond.network.trans hfirst.network
  failing := hsecond.failing.trans hfirst.failing
  sink := hsecond.sink.trans hfirst.sink
  home := hsecond.home.trans hfirst.home

/-- Whether two hosts are the same to teams, apart from the time and the files. -/
structure Agree (h h' : Host) : Prop where
  epochMs : h'.epochMs = h.epochMs
  network : h'.network = h.network
  failing : h'.device.failing = h.device.failing

theorem Agree.stays {g g' : Host} (hagree : Agree h h') (hstays : Stays h g) (hstays' : Stays h' g') :
    Agree g g' where
  epochMs := hstays'.epochMs.trans (hagree.epochMs.trans hstays.epochMs.symm)
  network := hstays'.network.trans (hagree.network.trans hstays.network.symm)
  failing := hstays'.failing.trans (hagree.failing.trans hstays.failing.symm)

/-- Whether what happens to a host is nothing to a team. -/
structure Spares (config : TeamConfig) (h h' : Host) : Prop where
  stays : Stays h h'
  files : config.Spared h.files h'.files

theorem Spares.refl (config : TeamConfig) (h : Host) : Spares config h h :=
  ⟨.refl h, .refl config h.files⟩

theorem Spares.trans {h'' : Host} (hfirst : Spares config h h') (hsecond : Spares config h' h'') :
    Spares config h h'' :=
  ⟨hfirst.stays.trans hsecond.stays, hfirst.files.trans hsecond.files⟩

/-! ### Notices -/

theorem spares_post (config : TeamConfig) (h : Host) (telemetry : Telemetry) (kind : String)
    (payload : Value) : Spares config h (h.post telemetry kind payload) := by
  unfold post
  split
  · exact ⟨⟨rfl, rfl, rfl, rfl, rfl⟩, .refl config h.files⟩
  · exact .refl config h

theorem spared_write (hnamed : config.Named) {fs : Files} {log : Log}
    (hignores : config.Ignores fs log.path) (timestamp : String) (r : LogRecord) :
    config.Spared fs (log.write fs timestamp r) := by
  rw [Log.write]
  split
  · exact .refl config fs
  · split
    · rename_i happended
      exact TeamConfig.spared_append hnamed hignores happended
    · exact .refl config fs

variable (hnamed : config.Named) {m : Member}
  (hlog : ∀ q, m.logPath? = some q → config.Ignores h.files q)

include hnamed hlog

theorem spares_log {telemetry : Telemetry} (hthere : m.telemetry = some telemetry) (level : Level)
    (message : String) (metadata : Value) :
    Spares config h (h.log telemetry level message metadata) := by
  unfold log
  split
  · exact .refl config h
  · rename_i log hof
    have hpath : m.logPath? = some log.path := by
      rw [Member.logPath?, hthere, Option.bind_some, hof, Option.map_some]
    have hwritten := spared_write hnamed (hlog _ hpath) (timestamp h.epochMs h.now)
      (LogRecord.withMetadata { component := telemetry.component, level, message } metadata)
    exact ⟨⟨rfl, rfl, rfl, rfl, hwritten.home⟩, hwritten⟩

theorem spares_notify {telemetry : Telemetry} (hthere : m.telemetry = some telemetry)
    (notice : Notice) : Spares config h (notify telemetry h notice) := by
  cases notice with
  | log level message metadata => exact spares_log hnamed hlog hthere level message metadata
  | event kind payload => exact spares_post config h telemetry kind payload
  | failed failure =>
      exact (spares_log hnamed hlog hthere _ _ _).trans (spares_post config _ telemetry _ _)

theorem spares_notifyAll (notices : List Notice) :
    Spares config h (h.notifyAll m.telemetry notices) := by
  cases hthere : m.telemetry with
  | none => exact .refl config h
  | some telemetry =>
      refine List.foldlRecOn notices _ (motive := fun g : Host => Spares config h g) (.refl config h) ?_
      intro g hg notice _
      have hmore := fun q hq => (hlog q hq).of_home hg.files.home
      exact hg.trans (spares_notify hnamed hmore hthere notice)

omit hnamed hlog

/-! ### Events -/

theorem spared_publish (hnamed : config.Named) {fs : Files} (sink : EventSink)
    (hevents : ∀ q, sink.path? = some q → config.Ignores fs q) (e : Event) :
    (sink.publish fs e).1.path? = sink.path? ∧ config.Spared fs (sink.publish fs e).2 := by
  cases sink with
  | nowhere => exact ⟨rfl, .refl config fs⟩
  | memory backlog => exact ⟨rfl, .refl config fs⟩
  | file q =>
      rw [EventSink.publish]
      cases happended : fs.append q (Json.compact e.toValue ++ "\n") with
      | ok fs' => exact ⟨rfl, TeamConfig.spared_append hnamed (hevents q rfl) happended⟩
      | error fault => exact ⟨rfl, .refl config fs⟩

theorem spares_flush (hnamed : config.Named)
    (hevents : ∀ q, h.sink.path? = some q → config.Ignores h.files q) : Spares config h h.flush := by
  have hall : ∀ (events : List Event),
      (events.foldl (fun done e => EventSink.publish done.1 done.2 e) (h.sink, h.files)).1.path? =
          h.sink.path? ∧
        config.Spared h.files
          (events.foldl (fun done e => EventSink.publish done.1 done.2 e) (h.sink, h.files)).2 := by
    intro events
    refine List.foldlRecOn events _ (motive := fun done : EventSink × Files =>
      done.1.path? = h.sink.path? ∧ config.Spared h.files done.2) ⟨rfl, .refl config h.files⟩ ?_
    rintro ⟨sink, fs⟩ ⟨hsink, hfiles⟩ e _
    have hmore : ∀ q, sink.path? = some q → config.Ignores fs q := fun q hq =>
      (hevents q (hsink.symm.trans hq)).of_home hfiles.home
    obtain ⟨hsame, hspared⟩ := spared_publish hnamed sink hmore e
    exact ⟨hsame.trans hsink, hfiles.trans hspared⟩
  obtain ⟨hsink, hfiles⟩ := hall h.outbox
  exact ⟨⟨rfl, rfl, rfl, hsink, hfiles.home⟩, hfiles⟩

end Host

end CrowdPad
