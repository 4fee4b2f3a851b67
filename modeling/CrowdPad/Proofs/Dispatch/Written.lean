import CrowdPad.Proofs.Dispatch.Delivery
import CrowdPad.Proofs.Dispatch.Pairs
import CrowdPad.Proofs.Timeline.Firing

/-! What a worker writes of what it is handed. Edges are worked off one by one and in order: each is
written, or is a press found too old, or is the release of such a press. The pairs whose press was
dropped are those whose release is still to be passed over, so that of every pair both edges are
written or none. -/

namespace CrowdPad

namespace Delivery

variable {target : Target} {settings : RemoteSettings} {d : Delivery} {now : Time} {e : Edge}
  {result : MoveResult}

/-- Whether the press of a pair was dropped for its age. -/
def HasDropped (d : Delivery) (pair : Nat) : Prop := ∃ p ∈ d.overdue, p.2.pair = pair

/-- What has become of the edges that are worked off: which of them were written, which are presses
that were dropped, and which releases are still to be passed over. -/
structure Settled (d : Delivery) (done : List Edge) : Prop where
  split : d.handed = done ++ d.worker.pending
  written : d.edges.Sublist done
  overdue : (d.overdue.map (·.2)).Sublist done
  covered : ∀ e ∈ done, e ∈ d.edges ∨ e ∈ d.overdue.map (·.2) ∨
    e.transition = .release ∧ d.HasDropped e.pair
  apart : ∀ e ∈ d.edges, ¬d.HasDropped e.pair
  owed : ∀ pair, pair ∈ d.worker.dropped ↔
    d.HasDropped pair ∧ ∀ e ∈ done, e.pair = pair → e.transition = .press
  nodup : d.worker.dropped.Nodup
  current : ∀ e, d.worker.current = some e → e.transition = .press ∨ e.pair ∉ d.worker.dropped

theorem mem_dropStale {w : RemoteWorker} {pair : Nat} :
    pair ∈ (w.dropStale now e).worker.dropped ↔ pair = e.pair ∨ pair ∈ w.dropped := by
  rw [RemoteWorker.dropStale]
  dsimp only
  split
  · rename_i hmem
    rw [List.contains_iff_mem] at hmem
    exact ⟨.inr, fun h => h.elim (fun heq => heq ▸ hmem) id⟩
  · exact List.mem_cons

theorem nodup_dropStale {w : RemoteWorker} (h : w.dropped.Nodup) (now : Time) :
    (w.dropStale now e).worker.dropped.Nodup := by
  rw [RemoteWorker.dropStale]
  dsimp only
  split
  · exact h
  · rename_i hmem
    exact List.nodup_cons.mpr ⟨mt List.contains_iff_mem.mpr hmem, h⟩

theorem hasDropped_append {worker : RemoteWorker} {pair : Nat} :
    HasDropped { d with worker, overdue := d.overdue ++ [(now, e)] } pair ↔
      d.HasDropped pair ∨ e.pair = pair := by
  simp only [HasDropped, List.mem_append, List.mem_singleton, or_and_right, exists_or,
    exists_eq_left]

section Settled

variable {done rest : List Edge} (h : d.Settled done)

include h

/-- What is worked off stands before what is not. -/
theorem Settled.of_earlier (hpairs : InPairs d.handed) (hcurrent : d.worker.current = some e)
    {earlier : Edge} (hearlier : earlier ∈ done) (hpair : earlier.pair = e.pair) :
    earlier.transition = .press ∧ e.transition = .release := by
  rw [h.split, RemoteWorker.pending_of_current hcurrent] at hpairs
  exact hpairs.of_earlier hearlier hpair

theorem Settled.not_hasDropped (hpairs : InPairs d.handed) (hcurrent : d.worker.current = some e) :
    ¬d.HasDropped e.pair := by
  -- Only presses stand before an edge of their pair, so a dropped pair would still be kept in mind, and
  -- its release would have been passed over.
  rintro ⟨p, hp, hpair⟩
  have hdone : p.2 ∈ done := h.overdue.subset (List.mem_map_of_mem hp)
  have hrelease : e.transition = .release := (h.of_earlier hpairs hcurrent hdone hpair).2
  have howed : e.pair ∈ d.worker.dropped := (h.owed e.pair).mpr
    ⟨⟨p, hp, hpair⟩, fun earlier hearlier hsame => (h.of_earlier hpairs hcurrent hearlier hsame).1⟩
  rcases h.current e hcurrent with hpress | hkept
  · rw [hrelease] at hpress
    cases hpress
  · exact hkept howed

theorem Settled.passOver (hqueue : d.worker.queue = e :: rest) (hcurrent : d.worker.current = none)
    (hrelease : e.transition = .release) (hdropped : e.pair ∈ d.worker.dropped)
    (stats : DispatchStats) :
    Settled
      { d with
        worker :=
          { d.worker with queue := rest, stats, dropped := d.worker.dropped.erase e.pair } }
      (done ++ [e]) where
  split := by
    rw [h.split, RemoteWorker.pending, RemoteWorker.pending, hcurrent, hqueue, List.append_assoc]
    rfl
  written := h.written.trans (List.sublist_append_left ..)
  overdue := h.overdue.trans (List.sublist_append_left ..)
  covered := by
    intro e' he'
    rcases List.mem_append.mp he' with hearlier | hlast
    · exact h.covered e' hearlier
    · rw [List.mem_singleton.mp hlast]
      exact .inr (.inr ⟨hrelease, ((h.owed e.pair).mp hdropped).1⟩)
  apart := h.apart
  owed := by
    intro pair
    rw [h.nodup.mem_erase_iff, h.owed, List.forall_mem_append, List.forall_mem_singleton, hrelease]
    constructor
    · rintro ⟨hne, hpair, hall⟩
      exact ⟨hpair, hall, fun heq => absurd heq.symm hne⟩
    · rintro ⟨hpair, hall, hlast⟩
      exact ⟨fun heq => Transition.noConfusion (hlast heq.symm), hpair, hall⟩
  nodup := h.nodup.erase _
  current := by
    intro e' he'
    rw [hcurrent] at he'
    cases he'

theorem Settled.take (hqueue : d.worker.queue = e :: rest) (hcurrent : d.worker.current = none)
    (hkept : e.transition = .press ∨ e.pair ∉ d.worker.dropped) (stats : DispatchStats) :
    Settled { d with worker := { d.worker with queue := rest, stats, current := some e } } done where
  split := by
    rw [h.split, RemoteWorker.pending, RemoteWorker.pending, hcurrent, hqueue]
    rfl
  written := h.written
  overdue := h.overdue
  covered := h.covered
  apart := h.apart
  owed := h.owed
  nodup := h.nodup
  current := by
    intro e' he'
    rw [← Option.some.inj he']
    exact hkept

theorem Settled.drop (hpairs : InPairs d.handed) (hcurrent : d.worker.current = some e)
    (hpress : e.transition = .press) (now : Time) :
    Settled
      { d with
        worker := (d.worker.dropStale now e).worker
        overdue := d.overdue ++ [(now, e)] }
      (done ++ [e]) where
  split := by
    rw [h.split, RemoteWorker.pending, RemoteWorker.pending, hcurrent, List.append_assoc]
    rfl
  written := h.written.trans (List.sublist_append_left ..)
  overdue := by
    rw [List.map_append]
    exact h.overdue.append (List.Sublist.refl [e])
  covered := by
    intro e' he'
    rw [List.map_append, List.mem_append, hasDropped_append]
    rcases List.mem_append.mp he' with hearlier | hlast
    · exact (h.covered e' hearlier).imp_right (.imp .inl (And.imp_right .inl))
    · exact .inr (.inl (.inr hlast))
  apart := by
    intro e' he'
    rw [hasDropped_append]
    rintro (hpair | hsame)
    · exact h.apart e' he' hpair
    · have hlater := (h.of_earlier hpairs hcurrent (h.written.subset he') hsame.symm).2
      rw [hpress] at hlater
      cases hlater
  owed := by
    intro pair
    rw [mem_dropStale, hasDropped_append, h.owed, List.forall_mem_append, List.forall_mem_singleton]
    by_cases hsame : e.pair = pair
    · refine ⟨fun _ => ⟨.inr hsame, fun earlier hearlier hpair => ?_, fun _ => hpress⟩,
        fun _ => .inl hsame.symm⟩
      exact (h.of_earlier hpairs hcurrent hearlier (hpair.trans hsame.symm)).1
    · simp [hsame, Ne.symm hsame]
  nodup := nodup_dropStale h.nodup now
  current := by
    intro e' he'
    cases he'

theorem Settled.write (hpairs : InPairs d.handed) (hcurrent : d.worker.current = some e)
    (connected : Bool) (start finish : Time) (message : WireMessage) :
    Settled
      { d with
        worker := (RemoteWorker.wrote { d.worker with connected } e start finish).worker
        written := d.written ++ [(e, message)] }
      (done ++ [e]) where
  split := by
    rw [h.split, RemoteWorker.pending, RemoteWorker.pending, hcurrent, List.append_assoc]
    rfl
  written := by
    rw [edges, List.map_append]
    exact h.written.append (List.Sublist.refl [e])
  overdue := h.overdue.trans (List.sublist_append_left ..)
  covered := by
    intro e' he'
    rw [edges, List.map_append, List.mem_append]
    rcases List.mem_append.mp he' with hearlier | hlast
    · exact (h.covered e' hearlier).imp_left .inl
    · exact .inl (.inr hlast)
  apart := by
    rw [edges, List.map_append, List.forall_mem_append]
    refine ⟨h.apart, fun e' he' => ?_⟩
    rw [List.mem_singleton.mp he']
    exact h.not_hasDropped hpairs hcurrent
  owed := by
    intro pair
    refine (h.owed pair).trans (and_congr_right fun hpair => ?_)
    rw [List.forall_mem_append, List.forall_mem_singleton]
    refine (and_iff_left fun hsame => ?_).symm
    exact absurd (hsame ▸ hpair) (h.not_hasDropped hpairs hcurrent)
  nodup := h.nodup
  current := by
    intro e' he'
    cases he'

/-- Where one edge of a pair was written, the other one is, once it is worked off. -/
theorem Settled.companion {other : Edge} (he : e ∈ d.edges) (hother : other ∈ done)
    (hpair : other.pair = e.pair) : other ∈ d.edges := by
  have hkept := h.apart e he
  rw [← hpair] at hkept
  rcases h.covered other hother with hwritten | hoverdue | ⟨-, hdropped⟩
  · exact hwritten
  · obtain ⟨p, hp, rfl⟩ := List.mem_map.mp hoverdue
    exact absurd ⟨p, hp, rfl⟩ hkept
  · exact absurd hdropped hkept

theorem Settled.mem_handed (he : e ∈ d.handed) : e ∈ done ∨ e ∈ d.worker.pending := by
  rwa [h.split, List.mem_append] at he

theorem Settled.behind (hpairs : InPairs d.handed)
    (hmoved : RemoteWorker.Moved d.worker now result) :
    ∃ done', (d.behind now result).Settled done' := by
  cases hmoved with
  | idle hcurrent =>
      rw [behind_of_none hcurrent]
      exact ⟨done, h⟩
  | passedOver hcurrent hqueue hrelease hdropped =>
      rw [behind_of_none hcurrent]
      exact ⟨_, h.passOver hqueue hcurrent hrelease hdropped _⟩
  | taken hcurrent hqueue hkept =>
      rw [behind_of_none hcurrent]
      exact ⟨done, h.take hqueue hcurrent hkept _⟩
  | overdue hcurrent hstale =>
      have hpress := RemoteWorker.press_of_isStale hstale
      rw [behind_overdue hcurrent hstale]
      exact ⟨_, h.drop hpairs hcurrent hpress now⟩
  | attempted hcurrent hfresh hattempted =>
      cases hattempted with
      | failed connected hlater =>
          rw [behind_failed hcurrent hfresh]
          exact ⟨done, ⟨h.split, h.written, h.overdue, h.covered, h.apart, h.owed, h.nodup, h.current⟩⟩
      | written connected hfits =>
          rw [behind_wrote hcurrent hfresh]
          exact ⟨_, h.write hpairs hcurrent connected _ _ _⟩

end Settled

/-! ### Runs -/

theorem start_settled : (start target settings).Settled [] where
  split := rfl
  written := List.Sublist.refl []
  overdue := List.Sublist.refl []
  covered := fun _ h => absurd h List.not_mem_nil
  apart := fun _ h => absurd h List.not_mem_nil
  owed := fun pair => by simp [start, HasDropped]
  nodup := List.nodup_nil
  current := fun _ h => by cases h

theorem Settled.step {done : List Edge} (h : d.Settled done) (σ : RemoteStep)
    (hpairs : InPairs (d.step σ).handed) : ∃ done', (d.step σ).Settled done' := by
  have hbefore := hpairs.of_front (d.handed_step σ)
  refine d.step_cases σ ?_ ?_ ?_
  · exact ⟨done, h⟩
  · intro _ _
    refine ⟨done, ⟨?_, h.written, h.overdue, h.covered, h.apart, h.owed, h.nodup, h.current⟩⟩
    rw [h.split, RemoteWorker.pending, RemoteWorker.pending, List.append_assoc, List.append_assoc]
  · exact fun _ _ _ hmoved => h.behind hbefore hmoved

theorem Settled.run {done : List Edge} (h : d.Settled done) (steps : List RemoteStep)
    (hpairs : InPairs (d.run steps).handed) : ∃ done', (d.run steps).Settled done' := by
  induction steps generalizing d done with
  | nil => exact ⟨done, h⟩
  | cons σ rest ih =>
      obtain ⟨done', hstep⟩ := h.step σ (hpairs.of_front ((d.step σ).handed_run rest))
      exact ih hstep hpairs

end Delivery

/-- **Delivery.** Whatever the network does and however long it takes, the edges written are among
those handed over, in the same order and each once, with consecutive numbers. What is worked off
without being written is a press found too old or the release of one, and of such a pair nothing is
written. A release whose press was written stays with the worker, which tries until it is written too:
where the settings multiply every wait to a length of time, no wait of a worker ends it. Once nothing is
left to do, both edges of a pair are written or none, and no dropped pair is kept in mind. What a worker does
without pause is a number of the moves that such runs are made of. -/
theorem written_in_pairs (target : Target) (settings : RemoteSettings) (hsettings : settings.Multiplies)
    (steps : List RemoteStep) {d : Delivery} (hrun : (Delivery.start target settings).run steps = d)
    (hpairs : InPairs d.handed) :
    d.edges.Sublist d.handed ∧ d.edges.Nodup ∧ d.written.map (·.2) = numbered target d.edges ∧
      (∀ e ∈ d.handed, e ∈ d.edges ∨ e ∈ d.worker.pending ∨ e ∈ d.overdue.map (·.2) ∨
        e.transition = .release ∧ d.HasDropped e.pair) ∧
      (∀ p ∈ d.overdue, p.2 ∈ d.handed ∧ p.2.transition = .press ∧
        settings.stalenessMs < RemoteWorker.lateMs p.1 p.2) ∧
      (∀ e ∈ d.edges, ¬d.HasDropped e.pair) ∧
      (∀ press ∈ d.edges, ∀ release ∈ d.handed, release.pair = press.pair →
        release ∈ d.edges ∨ release ∈ d.worker.pending) ∧
      (∀ e, d.worker.current = some e → e.transition = .release → d.Insists e) ∧
      (∀ front, front <+: steps → Backoff.scale settings.backoffFactor
        ((Delivery.start target settings).run front).worker.backoff < 2 ^ 64 * 1000000000) ∧
      d.worker.stats.delivered = d.edges.length ∧
      d.worker.stats.staleDropped = d.overdue.length ∧ (d.overdue.map (·.2)).Nodup ∧
      (d.worker.pending = [] →
        (∀ e ∈ d.handed, ∀ other ∈ d.handed, e.pair = other.pair →
          (e ∈ d.edges ↔ other ∈ d.edges)) ∧
        ((∀ press ∈ d.handed, ∃ release ∈ d.handed, release.pair = press.pair ∧
          release.transition = .release) → d.worker.dropped = [])) ∧
      ∀ now a, ∃ count, let last := d.run (List.replicate count (.move now a))
        (last.worker.isWaiting now ∨ last.worker.pending = []) ∧
        (d.worker.run now a).1 = last.worker ∧
        last.written.map (·.2) = d.written.map (·.2) ++ (d.worker.run now a).2.1 := by
  have hwaits : ∀ front, front <+: steps → Backoff.scale settings.backoffFactor
      ((Delivery.start target settings).run front).worker.backoff < 2 ^ 64 * 1000000000 :=
    fun front _ => hsettings _ (Delivery.allowed_run target settings front)
  subst hrun
  have hbooked := (Delivery.start_booked target settings).run steps
  obtain ⟨done, h⟩ := Delivery.start_settled.run steps hpairs
  generalize (Delivery.start target settings).run steps = d at hpairs hbooked h
  have hdone : done.Sublist d.handed := by
    rw [h.split]
    exact List.sublist_append_left ..
  refine ⟨h.written.trans hdone, hpairs.nodup.sublist (h.written.trans hdone), hbooked.messages,
    fun e he => ?_, fun p hp => ?_, h.apart, fun press hpress release hrelease hpair => ?_,
    fun e => Delivery.insists_of_release, hwaits, hbooked.delivered, hbooked.staleDropped,
    hpairs.nodup.sublist (h.overdue.trans hdone), fun hpending => ?_, d.run_eq_moves⟩
  · rcases h.mem_handed he with hworked | hpending
    · exact (h.covered e hworked).imp_right .inr
    · exact .inr (.inl hpending)
  · exact ⟨hdone.subset (h.overdue.subset (List.mem_map_of_mem hp)), hbooked.old p hp⟩
  · exact (h.mem_handed hrelease).imp_left fun hworked => h.companion hpress hworked hpair
  · have hall : d.handed = done := by rw [h.split, hpending, List.append_nil]
    refine ⟨fun e he other hother hpair => ?_, fun hreleased => ?_⟩
    · rw [hall] at he hother
      exact ⟨fun hwritten => h.companion hwritten hother hpair.symm,
        fun hwritten => h.companion hwritten he hpair⟩
    · rw [List.eq_nil_iff_forall_not_mem]
      intro pair howed
      obtain ⟨⟨p, hp, rfl⟩, hpresses⟩ := (h.owed pair).mp howed
      have hworked : p.2 ∈ d.handed := hdone.subset (h.overdue.subset (List.mem_map_of_mem hp))
      obtain ⟨release, hrelease, hpair, hup⟩ := hreleased p.2 hworked
      have hdown := hpresses release (hall ▸ hrelease) hpair
      rw [hup] at hdown
      cases hdown

/-- A short push of a key, 5 s behind the reference time. -/
def lateTap : Request := { Timeline.tap with delayMs := 5000 }

/-- Two taps that a scheduler hands over together, the first of them too late. The server refuses the
first connection. -/
theorem written_in_pairs_of_taps :
    let late := [lateTap.pressEdge 1 1 0, lateTap.releaseEdge 1 1 0]
    let d := (Delivery.start { mode := .remote, player := 3 } {}).run
      ([Timeline.tap.pressEdge 1 0 0, Timeline.tap.releaseEdge 1 0 0].map .handOver ++
        late.map .handOver ++ [.move 5060 {}, .move 5060 {}, .move 5060 {}, .move 5060 {},
          .move 5060 .refused, .move 5100 {}, .move 6060 {}, .move 6060 {}, .move 6060 {}])
    d.written.map (·.2) = numbered { mode := .remote, player := 3 } late ∧
      d.worker.dropped = [] := by
  intro late d
  have hdepartures : (Timeline.run {} [.schedule [Timeline.tap, lateTap] 0,
      .advance 5050]).departures.map (·.edge) =
      [Timeline.tap.pressEdge 1 0 0, Timeline.tap.releaseEdge 1 0 0] ++ late := by cbv
  have hhanded : d.handed =
      [Timeline.tap.pressEdge 1 0 0, Timeline.tap.releaseEdge 1 0 0] ++ late := by decide +kernel
  have hedges : d.edges = late := by decide +kernel
  have hpending : d.worker.pending = [] := by decide +kernel
  have hpairs : InPairs d.handed := hhanded ▸ hdepartures ▸ Timeline.inPairs_departures _
  have hsettings : RemoteSettings.Multiplies {} := by
    refine RemoteSettings.multiplies_of_lt ?_
    decide +kernel
  have h := written_in_pairs { mode := .remote, player := 3 } {} hsettings _ (d := d) rfl hpairs
  obtain ⟨-, -, hnumbered, -, -, -, -, -, -, -, -, -, hdone, -⟩ := h
  refine ⟨hedges ▸ hnumbered, (hdone hpending).2 ?_⟩
  rw [hhanded]
  decide +kernel

end CrowdPad
