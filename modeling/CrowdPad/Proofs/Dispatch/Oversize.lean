import CrowdPad.Proofs.Dispatch.Unreachable
import CrowdPad.Proofs.Verb.Build
import CrowdPad.Proofs.Wire.Size

/-! Messages that go into no frame. A worker treats such a message as it treats a lost connection: it waits
and tries again. A press is dropped when it is too old, but a release is never given up, and it is longer
than its press. So over a connection that always works the worker comes to the end of what it has, or it
stays for good with a release whose press was written with too little room left in its frame. -/

namespace CrowdPad

/-- A release has its press before it. -/
theorem InPairs.exists_press {edges rest : List Edge} {e : Edge} (h : InPairs (edges ++ e :: rest))
    (hrelease : e.transition = .release) :
    ∃ press ∈ edges, press.pair = e.pair ∧ press.transition = .press := by
  obtain ⟨more, hmore⟩ := h e.pair
  have hself : Edge.inPair e.pair e := beq_self_eq_true e.pair
  rw [List.filter_append, List.filter_cons_of_pos hself, List.map_append, List.map_cons, hrelease,
    List.append_assoc] at hmore
  cases hfilter : edges.filter (Edge.inPair e.pair) with
  | nil =>
      rw [hfilter] at hmore
      cases hmore
  | cons press others =>
      rw [hfilter] at hmore
      have hmem : press ∈ edges.filter (Edge.inPair e.pair) := hfilter ▸ List.mem_cons_self ..
      obtain ⟨hpress, hpair⟩ := List.mem_filter.mp hmem
      exact ⟨press, hpress, beq_iff_eq.mp hpair, (List.cons.inj hmore).1⟩

namespace Delivery

variable {target : Target} {settings : RemoteSettings} {d : Delivery} {first now : Time} {a : Attempt}
  {e : Edge} {result : MoveResult} {made : List (Time × Attempt)}

/-! ### A release that stays -/

/-- Whether the worker tries to write a release that goes into no frame. -/
structure Stuck (d : Delivery) (e : Edge) : Prop where
  current : d.worker.current = some e
  release : e.transition = .release
  oversize : ¬(d.worker.messageOf e).fits

theorem Stuck.step (h : d.Stuck e) (σ : RemoteStep) :
    (d.step σ).Stuck e ∧ (d.step σ).written = d.written := by
  refine d.step_cases σ ?_ ?_ ?_
  · exact ⟨h, rfl⟩
  · exact fun _ _ => ⟨⟨h.current, h.release, h.oversize⟩, rfl⟩
  · intro now a _ _
    have hfresh : d.worker.isStale now e = false := by
      simp [RemoteWorker.isStale, Edge.isPress, h.release]
    rw [RemoteWorker.move_of_fresh h.current hfresh]
    have hattempted := RemoteWorker.attempted_attempt d.worker now a e
    generalize d.worker.attempt now a e = result at hattempted
    cases hattempted with
    | failed connected hlater =>
        rw [behind_failed h.current hfresh]
        exact ⟨⟨h.current, h.release, h.oversize⟩, rfl⟩
    | written connected hfits => exact absurd hfits h.oversize

/-- Nothing is written any more, and the release stays. -/
theorem Stuck.run (h : d.Stuck e) (steps : List RemoteStep) :
    (d.run steps).Stuck e ∧ (d.run steps).written = d.written := by
  induction steps generalizing d with
  | nil => exact ⟨h, rfl⟩
  | cons σ rest ih =>
      obtain ⟨hstep, hwritten⟩ := h.step σ
      obtain ⟨hrun, hsame⟩ := ih hstep
      exact ⟨hrun, hsame.trans hwritten⟩

theorem Stuck.edges_run (h : d.Stuck e) (steps : List RemoteStep) : (d.run steps).edges = d.edges := by
  rw [edges, (h.run steps).2, edges]

theorem Stuck.moves (h : d.Stuck e) (made : List (Time × Attempt)) : (d.moves made).Stuck e :=
  (h.run _).1

/-! ### What is written -/

/-- Whether a message is the one of its edge, with some number, and goes into a frame. -/
def Framed (target : Target) (p : Edge × WireMessage) : Prop :=
  p.2.fits ∧ ∃ seq, p.2 =
    { player := target.player.toUInt8, key := p.1.key, transition := p.1.transition, seq }

theorem Booked.framed_step (hbooked : d.Booked target settings) (h : ∀ p ∈ d.written, Framed target p)
    (σ : RemoteStep) : ∀ p ∈ (d.step σ).written, Framed target p := by
  refine d.step_cases σ ?_ ?_ ?_
  · exact h
  · exact fun _ _ => h
  · intro now a _ hmoved
    generalize d.worker.move now a = result at hmoved
    cases hmoved with
    | idle hcurrent | passedOver hcurrent | taken hcurrent => rwa [behind_of_none hcurrent]
    | overdue hcurrent hstale => rwa [behind_overdue hcurrent hstale]
    | attempted hcurrent hfresh hattempted =>
        cases hattempted with
        | failed connected hlater => rwa [behind_failed hcurrent hfresh]
        | written connected hfits =>
            rw [behind_wrote hcurrent hfresh]
            rw [List.forall_mem_append, List.forall_mem_singleton]
            refine ⟨h, hfits, d.worker.seq.toUInt64, ?_⟩
            rw [← hbooked.sameTarget]
            rfl

theorem start_framed (target : Target) (settings : RemoteSettings) (steps : List RemoteStep) :
    ∀ p ∈ ((start target settings).run steps).written, Framed target p := by
  have hall : ((start target settings).run steps).Booked target settings ∧
      ∀ p ∈ ((start target settings).run steps).written, Framed target p :=
    List.foldlRecOn (motive := fun u : Delivery =>
        u.Booked target settings ∧ ∀ p ∈ u.written, Framed target p) steps Delivery.step
      ⟨start_booked target settings, nofun⟩
      fun u ⟨hbooked, hframed⟩ σ _ => ⟨hbooked.step σ, hbooked.framed_step hframed σ⟩
  exact hall.2

/-- The press of a release that the worker is trying to write was written. -/
theorem Settled.exists_press {done : List Edge} (h : d.Settled done) (hpairs : InPairs d.handed)
    (hcurrent : d.worker.current = some e) (hrelease : e.transition = .release) :
    ∃ press ∈ d.edges, press ∈ d.handed ∧ press.pair = e.pair ∧ press.transition = .press := by
  have hsplit := h.split
  rw [RemoteWorker.pending_of_current hcurrent] at hsplit
  obtain ⟨press, hdone, hpair, hdown⟩ := (hsplit ▸ hpairs).exists_press hrelease
  have hhanded : press ∈ d.handed := hsplit ▸ List.mem_append_left _ hdone
  have hkept : ¬d.HasDropped press.pair := hpair ▸ h.not_hasDropped hpairs hcurrent
  refine ⟨press, ?_, hhanded, hpair, hdown⟩
  rcases h.covered press hdone with hwritten | hoverdue | ⟨hup, -⟩
  · exact hwritten
  · obtain ⟨p, hp, rfl⟩ := List.mem_map.mp hoverdue
    exact absurd ⟨p, hp, rfl⟩ hkept
  · rw [hdown] at hup
    cases hup

/-- Whether the edges of each pair are edges of one key. -/
def SameKeys (d : Delivery) : Prop :=
  ∀ e ∈ d.handed, ∀ other ∈ d.handed, e.pair = other.pair → e.key = other.key

/-- A release goes into a frame where the press that was written left room for it. -/
theorem Settled.fits_iff {done : List Edge} (h : d.Settled done) (htarget : d.worker.target = target)
    (hframed : ∀ p ∈ d.written, Framed target p) (hpairs : InPairs d.handed) (hkeys : d.SameKeys)
    (hcurrent : d.worker.current = some e) (hrelease : e.transition = .release) :
    ∃ p ∈ d.written, p.1.pair = e.pair ∧ p.1.transition = .press ∧ p.2.fits ∧
      ((d.worker.messageOf e).fits ↔
        p.2.payload.length + 2 + Json.digits d.worker.seq.toUInt64.toNat ≤
          maxPayload + Json.digits p.2.seq.toNat) := by
  obtain ⟨press, hwritten, hhanded, hpair, hdown⟩ := h.exists_press hpairs hcurrent hrelease
  obtain ⟨p, hp, rfl⟩ := List.mem_map.mp hwritten
  obtain ⟨hfits, seq, hmessage⟩ := hframed p hp
  have he : e ∈ d.handed := by
    rw [h.split, RemoteWorker.pending_of_current hcurrent]
    exact List.mem_append_right _ (List.mem_cons_self ..)
  refine ⟨p, hp, hpair, hdown, hfits, ?_⟩
  refine WireMessage.fits_release_iff ?_ ?_ ?_ ?_ hrelease
  · rw [hmessage]
    rfl
  · rw [hmessage, RemoteWorker.messageOf, htarget]
  · rw [hmessage]
    exact (hkeys _ hhanded e he hpair).symm
  · rw [hmessage]
    exact hdown

/-! ### Healthy moves -/

/-- Whether the worker waits only for the next attempt at an edge. -/
def Rested (d : Delivery) : Prop := d.worker.current = none → d.worker.wakeAt = none

theorem Rested.step (h : d.Rested) (σ : RemoteStep) : (d.step σ).Rested := by
  refine d.step_cases σ ?_ ?_ ?_
  · exact h
  · exact fun _ _ => h
  · intro now a _ hmoved
    generalize d.worker.move now a = result at hmoved
    cases hmoved with
    | idle | passedOver => exact h
    | taken =>
        intro hnone
        cases hnone
    | overdue => exact fun _ => rfl
    | attempted hcurrent hfresh hattempted =>
        cases hattempted with
        | failed connected hlater =>
            intro hnone
            cases hcurrent.symm.trans hnone
        | written connected hfits => exact fun _ => rfl

theorem Rested.run (h : d.Rested) (steps : List RemoteStep) : (d.run steps).Rested :=
  List.foldlRecOn steps Delivery.step h fun _ hd σ _ => hd.step σ

/-- A move over a connection that works leaves fewer moves, unless the worker is stuck. -/
theorem Rested.movesLeft_move (h : d.Rested) (ha : a.Succeeds d.worker.settings)
    (hready : d.worker.isWaiting now = false) (hfirst : first ≤ now) :
    (d.worker.move now a).worker.movesLeft first ≤ d.worker.movesLeft first - 1 ∨ ∃ e, d.Stuck e := by
  have hmoved := RemoteWorker.moved_move d.worker now a
  refine (hmoved.movesLeft_le h hready hfirst).imp_right ?_
  rintro ⟨e, connected, finish, error, hcurrent, hrelease, hfail⟩
  refine ⟨e, hcurrent, hrelease, fun hfits => ?_⟩
  have hfresh : d.worker.isStale now e = false := by
    simp [RemoteWorker.isStale, Edge.isPress, hrelease]
  obtain ⟨connected', start, finish', hwrote⟩ := RemoteWorker.attempt_of_succeeds now ha hfits
  rw [RemoteWorker.move_of_fresh hcurrent hfresh, hwrote] at hfail
  cases congrArg MoveResult.failure hfail

theorem Rested.movesLeft_moves (h : d.Rested) (hbooked : d.Booked target settings) (hdue : d.Due made)
    (hmade : ∀ m ∈ made, first ≤ m.1 ∧ m.2.Succeeds settings) :
    (d.moves made).worker.movesLeft first ≤ d.worker.movesLeft first - made.length ∨
      ∃ e, (d.moves made).Stuck e := by
  induction made generalizing d with
  | nil => exact .inl (Nat.le_refl _)
  | cons m rest ih =>
      obtain ⟨hready, hrest⟩ := hdue
      obtain ⟨⟨hfirst, hnow⟩, hlater⟩ := List.forall_mem_cons.mp hmade
      have hstep := step_move m.2 hready
      rcases h.movesLeft_move (hbooked.sameSettings ▸ hnow) hready hfirst with hless | ⟨e, hstuck⟩
      · refine (ih (h.step _) (hbooked.step _) hrest hlater).imp_left fun hmore => ?_
        have hworker : (d.step (.move m.1 m.2)).worker = (d.worker.move m.1 m.2).worker := by
          rw [hstep]
          rfl
        have hmoves : d.moves (m :: rest) = (d.step (.move m.1 m.2)).moves rest := rfl
        rw [hworker] at hmore
        rw [hmoves, List.length_cons]
        omega
      · exact .inr ⟨e, hstuck.moves _⟩

/-- Moves hand nothing over. -/
theorem handed_moves (d : Delivery) (made : List (Time × Attempt)) :
    (d.moves made).handed = d.handed := by
  induction made generalizing d with
  | nil => rfl
  | cons m rest ih =>
      have hstep : (d.step (.move m.1 m.2)).handed = d.handed := by
        rw [step]
        split <;> rfl
      exact (ih (d.step (.move m.1 m.2))).trans hstep

/-- **Stuck at the limit.** A release goes into a frame exactly where its press leaves room for two bytes
more and for the digits by which its number is longer. Where every attempt goes well, a number of moves is
enough for the worker to work off all it has, so that of each pair both edges are written or none, unless
it is stuck with a release and a written message has less than 21 bytes of its frame left; time always
comes for one more of these moves. Before a release its press was written, and the worker is stuck with
the release exactly where that press left too little room. Then it stays so, and writes nothing more,
whatever it meets. -/
theorem stuck_only_at_limit (target : Target) (settings : RemoteSettings) (steps : List RemoteStep)
    {d : Delivery} (hrun : (start target settings).run steps = d) (hpairs : InPairs d.handed)
    (hkeys : d.SameKeys) :
    (∀ player key (down up : UInt64),
      WireMessage.fits { player, key, transition := .release, seq := up } ↔
        (WireMessage.payload { player, key, transition := .press, seq := down }).length + 2 +
          Json.digits up.toNat ≤ maxPayload + Json.digits down.toNat) ∧
    (∀ first made, d.Due made → (∀ m ∈ made, first ≤ m.1 ∧ m.2.Succeeds settings) →
      RemoteWorker.enough settings first d.worker.pending ≤ made.length →
      let last := d.moves made
      (last.worker.pending = [] ∧ ∀ e ∈ d.handed, ∀ other ∈ d.handed, e.pair = other.pair →
        (e ∈ last.edges ↔ other ∈ last.edges)) ∨
      (∃ e, last.Stuck e) ∧ ∃ p ∈ last.written, maxPayload < p.2.payload.length + 21) ∧
    (∀ first count, ∃ made : List (Time × Attempt), made.length = count ∧ d.Due made ∧
      ∀ m ∈ made, first ≤ m.1 ∧ m.2.Succeeds settings) ∧
    (∀ e, d.worker.current = some e → e.transition = .release →
      ∃ p ∈ d.written, p.1.pair = e.pair ∧ p.1.transition = .press ∧ p.2.fits ∧
        (d.Stuck e ↔ maxPayload + Json.digits p.2.seq.toNat <
          p.2.payload.length + 2 + Json.digits d.worker.seq.toUInt64.toNat)) ∧
    ∀ e, d.Stuck e → ∀ more, (d.run more).Stuck e ∧ (d.run more).written = d.written := by
  have hrested : d.Rested := hrun ▸ Rested.run (fun _ => rfl) steps
  have hbooked : d.Booked target settings := hrun ▸ (start_booked target settings).run steps
  refine ⟨fun player key down up => WireMessage.fits_release_iff rfl rfl rfl rfl rfl,
    fun first made hdue hmade henough => ?_, fun first count => ?_,
    fun e hcurrent hrelease => ?_, fun e hstuck => hstuck.run⟩
  · intro last
    have hmore : (start target settings).run (steps ++ made.map fun m => .move m.1 m.2) = last :=
      List.foldl_append.trans (congrArg (·.moves made) hrun)
    have hhanded : last.handed = d.handed := d.handed_moves made
    have hlastPairs : InPairs last.handed := hhanded ▸ hpairs
    have hlastKeys : last.SameKeys := by rwa [SameKeys, hhanded]
    obtain ⟨done, hsettled⟩ := start_settled.run _ (hmore ▸ hlastPairs)
    rw [hmore] at hsettled
    rcases hrested.movesLeft_moves hbooked hdue hmade with hleft | ⟨e, hstuck⟩
    · left
      have hmost := d.worker.movesLeft_le first
      rw [hbooked.sameSettings] at hmost
      have hnone : last.worker.movesLeft first = 0 := Nat.le_zero.mp (hleft.trans (by omega))
      have hpending := RemoteWorker.pending_of_movesLeft hnone
      have hall : d.handed = done := by rw [← hhanded, hsettled.split, hpending, List.append_nil]
      rw [hall]
      exact ⟨hpending, fun e he other hother hpair =>
        ⟨fun hwritten => hsettled.companion hwritten hother hpair.symm,
          fun hwritten => hsettled.companion hwritten he hpair⟩⟩
    · right
      have hlastBooked := hmore ▸ (start_booked target settings).run _
      obtain ⟨p, hp, -, -, -, hfits⟩ := hsettled.fits_iff hlastBooked.sameTarget
        (hmore ▸ start_framed target settings _) hlastPairs hlastKeys hstuck.current hstuck.release
      have hover := Nat.not_le.mp (mt hfits.mpr hstuck.oversize)
      have hdown := Json.digits_pos p.2.seq.toNat
      have hup := Json.digits_le last.worker.seq.toUInt64
      exact ⟨⟨e, hstuck⟩, p, hp, by omega⟩
  · obtain ⟨made, hlength, hdue, hmade⟩ := d.exists_made {} first count
    refine ⟨made, hlength, hdue, fun m hm => ⟨(hmade m hm).1, ?_⟩⟩
    rw [(hmade m hm).2]
    exact ⟨rfl, Nat.zero_le _, rfl, Nat.zero_le _⟩
  · obtain ⟨done, hsettled⟩ := start_settled.run steps (hrun ▸ hpairs)
    rw [hrun] at hsettled
    obtain ⟨p, hp, hpair, hdown, hpressFits, hfits⟩ := hsettled.fits_iff hbooked.sameTarget
      (hrun ▸ start_framed target settings steps) hpairs hkeys hcurrent hrelease
    refine ⟨p, hp, hpair, hdown, hpressFits, ?_⟩
    rw [← Nat.not_le, ← hfits]
    exact ⟨fun hstuck => hstuck.oversize, fun hnot => ⟨hcurrent, hrelease, hnot⟩⟩

/-- A press and its release, due at once, are both written. -/
theorem stuck_only_at_limit_of_tap :
    let edge (transition : Transition) : Edge :=
      { batch := 1, pair := 0, fireAt := 0, key := "a", verb := "jump", transition }
    let d := (start { mode := .remote } { stalenessMs := 0 }).run
      [.handOver (edge .press), .handOver (edge .release)]
    let last := d.moves (List.replicate 6 (0, {}))
    last.worker.pending = [] ∧ (edge .press ∈ last.edges ↔ edge .release ∈ last.edges) := by
  intro edge d last
  have hhanded : d.handed = [edge .press, edge .release] := rfl
  have hpairs : InPairs d.handed := by
    intro pair
    rw [hhanded]
    by_cases hpair : 0 = pair
    · subst hpair
      exact List.prefix_refl _
    · have hother : ∀ t, Edge.inPair pair (edge t) = false := fun t => beq_false_of_ne hpair
      simp [hother]
  have hkeys : d.SameKeys := by
    rw [SameKeys, hhanded]
    decide
  have hmade : ∀ m ∈ List.replicate 6 (0, ({} : Attempt)),
      (0 : Time) ≤ m.1 ∧ m.2.Succeeds { stalenessMs := 0 } := by
    intro m hm
    rw [List.eq_of_mem_replicate hm]
    exact ⟨Int.le_refl 0, rfl, Nat.zero_le _, rfl, Nat.zero_le _⟩
  have hdue : d.Due (List.replicate 6 (0, {})) := by
    simp only [List.replicate, Due]
    decide +kernel
  obtain ⟨-, hdone, -⟩ := stuck_only_at_limit { mode := .remote } { stalenessMs := 0 } _ (d := d) rfl
    hpairs hkeys
  rcases hdone 0 _ hdue hmade (by decide +kernel) with ⟨hpending, hboth⟩ | ⟨-, p, hp, hlarge⟩
  · exact ⟨hpending, hboth _ (hhanded ▸ by simp) _ (hhanded ▸ by simp) rfl⟩
  · have hsmall : ∀ p ∈ last.written, ¬maxPayload < p.2.payload.length + 21 := by decide +kernel
    exact absurd hlarge (hsmall p hp)

/-! ### A key at the limit -/

/-- A jump under some key. -/
def jumpOf (key : String) : Verb := { name := "jump", key, defaultMs := 250 }

/-- Any key that is not empty makes a table. -/
theorem build_jumpOf {key : String} (hkey : key ≠ "") :
    ∃ t, ({ profile := "sample", verbs := [jumpOf key] } : Declarations).build = .ok t ∧
      jumpOf key ∈ t.verbs := by
  have hname : (jumpOf key).lowered = jumpOf key := by
    have hlower : Text.lower "jump" = "jump" := by decide +kernel
    rw [Verb.lowered, jumpOf, hlower]
  have hpasses : (jumpOf key).fault? = none := by
    have hword : ("jump".isEmpty || "jump".toList.any Text.isBlank) = false := by decide +kernel
    have hsome : key.isEmpty = false := by simpa using hkey
    simp only [jumpOf, Verb.fault?, hword, hsome]
    rfl
  have hverbs : Declarations.checkVerbs [] [jumpOf key] = .ok [jumpOf key] := by
    rw [Declarations.checkVerbs_nil_eq_ok_iff]
    simp [hname, hpasses]
  refine ⟨{ profile := "sample", verbs := [jumpOf key] }, ?_, List.mem_singleton_self _⟩
  rw [Declarations.build, hverbs]
  rfl

/-- A key of some letters. -/
def letters (count : Nat) : String := String.ofList (List.replicate count 'a')

theorem quotedSize_letters (count : Nat) : Json.quotedSize (letters count) = count := by
  rw [Json.quotedSize_of_plain]
  · simp [letters]
  · intro c hc
    rw [letters, String.toList_ofList] at hc
    rw [List.eq_of_mem_replicate hc]
    exact ⟨rfl, by decide⟩

/-- Of a pair whose press goes into a frame the worker writes the press and comes to the release. -/
theorem run_pair {press release : Edge} (hdown : press.transition = .press) (ha : a.Succeeds settings)
    (hyoung : RemoteWorker.lateMs now press ≤ settings.stalenessMs)
    (hfits : ((start target settings).worker.messageOf press).fits)
    (hrun : (start target settings).run
      [.handOver press, .handOver release, .move now a, .move now a, .move now a] = d) :
    d.edges = [press] ∧ d.worker.current = some release ∧ d.worker.seq = 1 ∧
      d.worker.target = target := by
  let taken : Delivery :=
    { worker := { target, settings, queue := [release], current := some press, stats := { queued := 1 } }
      handed := [press, release] }
  have htaken : (start target settings).run [.handOver press, .handOver release, .move now a] = taken := by
    simp [taken, run, start, step, RemoteWorker.handOver, RemoteWorker.isWaiting, RemoteWorker.move,
      RemoteWorker.take, Edge.isPress, hdown, behind]
  have hfresh : taken.worker.isStale now press = false := by
    simpa [RemoteWorker.isStale, taken] using fun _ => hyoung
  obtain ⟨connected, start, finish, hwrote⟩ :=
    RemoteWorker.attempt_of_succeeds (w := taken.worker) now ha hfits
  have hwritten : taken.step (.move now a) =
      { taken with
        worker := (RemoteWorker.wrote { taken.worker with connected } press start finish).worker
        written := [(press, taken.worker.messageOf press)] } := by
    rw [step_move (d := taken) a rfl, RemoteWorker.move_of_fresh rfl hfresh, hwrote,
      behind_wrote rfl hfresh]
    rfl
  have hlast : d = (taken.step (.move now a)).step (.move now a) := by
    rw [← htaken]
    exact hrun.symm
  rw [hlast, hwritten]
  simp [taken, step, RemoteWorker.wrote, RemoteWorker.isWaiting, RemoteWorker.move, RemoteWorker.take,
    behind, edges]

/-- The frame of a press is full, and its release, two bytes longer, goes into none. The worker comes to
the release over a connection that works, and stays with it whatever it meets. -/
theorem press_written_without_release :
    let r : Request := { verb := jumpOf (letters 65474), delayMs := 0, durationMs := 50 }
    let press := r.pressEdge 1 0 0
    let release := r.releaseEdge 1 0 0
    let d := (start { mode := .remote } {}).run
      [.handOver press, .handOver release, .move 0 {}, .move 0 {}, .move 0 {}]
    (∃ t, Declarations.build { profile := "sample", verbs := [r.verb] } = .ok t ∧ r.verb ∈ t.verbs) ∧
    Attempt.Succeeds {} {} ∧ d.edges = [press] ∧
    (d.worker.messageOf release).frame = .error (.frameTooLarge 65538) ∧
    ∀ more, (d.run more).edges = [press] ∧ (d.run more).worker.current = some release := by
  intro r press release d
  have hplain : letters 65474 ≠ "" := by
    intro hempty
    have hsize := quotedSize_letters 65474
    rw [hempty] at hsize
    cases hsize
  have hsucceeds : Attempt.Succeeds {} {} := ⟨rfl, Nat.zero_le _, rfl, Nat.zero_le _⟩
  have hdigits : Json.digits 0 = 1 ∧ Json.digits 1 = 1 := by decide +kernel
  have hsize (transition : Transition) (seq : UInt64) (hseq : Json.digits seq.toNat = 1) :
      (WireMessage.payload { player := 0, key := letters 65474, transition, seq }).length =
        65531 + transition.name.length := by
    rw [WireMessage.length_payload, quotedSize_letters, hseq]
    change 54 + Json.digits 1 + Json.digits 0 + 65474 + transition.name.length + 1 = _
    rw [hdigits.1, hdigits.2]
    omega
  have hfits : ((start { mode := .remote } {}).worker.messageOf press).fits := by
    have hfull : 65531 + Transition.press.name.length = maxPayload := by decide +kernel
    rw [WireMessage.fits_iff, ← hfull]
    exact (hsize .press 0 hdigits.1).le
  have hlong : (WireMessage.payload
      { player := 0, key := letters 65474, transition := .release, seq := 1 }).length = 65538 :=
    hsize .release 1 hdigits.1
  have hdown : press.transition = .press := rfl
  have hyoung : RemoteWorker.lateMs 0 press ≤ ({} : RemoteSettings).stalenessMs := by
    change (0 - (0 + 0 + ((0 : UInt32).toNat : Int))).toNat ≤ _
    decide
  have hd : d.edges = [press] ∧ d.worker.current = some release ∧ d.worker.seq = 1 ∧
      d.worker.target = { mode := .remote } :=
    run_pair hdown hsucceeds hyoung hfits rfl
  obtain ⟨hedges, hcurrent, hseq, htarget⟩ := hd
  have hmessage : d.worker.messageOf release =
      { player := 0, key := letters 65474, transition := .release, seq := 1 } := by
    rw [RemoteWorker.messageOf, hseq, htarget]
    rfl
  have hover : ¬(d.worker.messageOf release).fits := by
    rw [WireMessage.fits_iff, hmessage, hlong]
    decide
  have hstuck : d.Stuck release := ⟨hcurrent, rfl, hover⟩
  refine ⟨build_jumpOf hplain, hsucceeds, hedges, ?_, fun more => ?_⟩
  · rw [WireMessage.frame_of_not_fits hover, hmessage, hlong]
  · exact ⟨(hstuck.edges_run more).trans hedges, (hstuck.run more).1.current⟩

end Delivery

end CrowdPad
