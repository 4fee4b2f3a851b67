import CrowdPad.Proofs.Dispatch.Delivery
import CrowdPad.Proofs.Playback
import CrowdPad.Proofs.Wire.Server

/-! Delivery near and far. Where the network does what it should, a worker far from its device writes
every edge that it is handed, and the input server makes of the bytes what a worker beside the device
makes of the edges; behind them it releases the keys that were left pressed. -/

namespace CrowdPad

/-- An edge as the input server hands it to its device. -/
def Edge.served (target : Target) (e : Edge) : ServedEdge :=
  { player := target.player.toUInt8, key := e.key, transition := e.transition }

theorem edge_numbered (target : Target) (edges : List Edge) :
    (numbered target edges).map (·.edge) = edges.map (·.served target) := by
  induction edges using List.reverseRecOn with
  | nil => rfl
  | append_singleton edges e ih =>
      rw [Delivery.numbered_concat, List.map_append, List.map_append, ih]
      rfl

/-! ### The worker beside its device -/

/-- A worker beside its device applies its edges one after the other, refused or not. -/
theorem LocalWorker.applyAll_eq_foldl (now : Time) (player : Nat) (device : Device)
    (stats : DispatchStats) (edges : List Edge) :
    (applyAll now player device stats edges).1 =
      edges.foldl (fun device e => device.applyIfAble (input now player e)) device := by
  induction edges generalizing device stats with
  | nil => rfl
  | cons e rest ih =>
      rw [applyAll, List.foldl_cons, Device.applyIfAble, ← input]
      cases device.apply (input now player e) with
      | ok device => exact ih device _
      | error reason => exact ih device _

theorem InputServer.apply_served {target : Target} (hplayer : target.player < 256) (now : Time)
    (device : Device) (edges : List Edge) :
    InputServer.apply now device (edges.map (·.served target)) =
      (LocalWorker.run now device { target, queue := edges }).2.1 := by
  have hinput : ∀ e : Edge, inputOf now (e.served target) = LocalWorker.input now target.player e := by
    intro e
    have hsame : target.player.toUInt8.toNat = target.player := UInt8.toNat_ofNat_of_lt hplayer
    rw [inputOf, LocalWorker.input, Edge.served, hsame]
  rw [apply, List.foldl_map]
  simp only [hinput]
  exact (LocalWorker.applyAll_eq_foldl now target.player device {} edges).symm

theorem InputServer.apply_append (now : Time) (device : Device) (first rest : List ServedEdge) :
    InputServer.apply now device (first ++ rest) =
      InputServer.apply now (InputServer.apply now device first) rest :=
  List.foldl_append

/-! ### The worker far from its device -/

namespace Delivery

variable {target : Target} {settings : RemoteSettings} {d : Delivery} {now : Time} {e : Edge}

theorem overdue_step (d : Delivery) (σ : RemoteStep) : d.overdue <+: (d.step σ).overdue :=
  d.step_cases σ (List.prefix_refl _) (fun _ _ => List.prefix_refl _)
    fun _ _ _ _ => List.prefix_append ..

theorem overdue_run (d : Delivery) (steps : List RemoteStep) :
    d.overdue <+: (d.run steps).overdue :=
  List.foldlRecOn (motive := fun u : Delivery => d.overdue <+: u.overdue) steps step
    (List.prefix_refl _) fun u hu σ _ => hu.trans (u.overdue_step σ)

/-- Whether everything that is worked off was written, and nothing is to wait for. -/
structure Straight (d : Delivery) : Prop where
  split : d.handed = d.edges ++ d.worker.pending
  dropped : d.worker.dropped = []
  ready : d.worker.wakeAt = none

theorem start_straight : (start target settings).Straight := ⟨rfl, rfl, rfl⟩

theorem Straight.isWaiting (h : d.Straight) (now : Time) : d.worker.isWaiting now = false := by
  rw [RemoteWorker.isWaiting, h.ready]

theorem Straight.messageOf_mem (h : d.Straight) (hbooked : d.Booked target settings)
    (hcurrent : d.worker.current = some e) :
    d.worker.messageOf e ∈ numbered target d.handed := by
  have hfront : d.edges ++ [e] <+: d.handed := by
    rw [h.split, RemoteWorker.pending_of_current hcurrent]
    exact ⟨d.worker.queue, by rw [List.append_assoc, List.singleton_append]⟩
  have hmessage : d.worker.messageOf e = {
      player := target.player.toUInt8, key := e.key, transition := e.transition
      seq := d.edges.length.toUInt64 } := by
    rw [RemoteWorker.messageOf, hbooked.sameTarget, hbooked.seq]
  apply (numbered_front target hfront).subset
  rw [hmessage, numbered_concat]
  exact List.mem_append_right _ (List.mem_singleton_self _)

theorem Straight.step (h : d.Straight) (hbooked : d.Booked target settings) {σ : RemoteStep}
    (hworks : ∀ now a, σ = .move now a → a.Succeeds settings) (hfresh : (d.step σ).overdue = [])
    (hfits : ∀ m ∈ numbered target (d.step σ).handed, m.fits) : (d.step σ).Straight := by
  cases σ with
  | handOver e =>
      rcases d.step_handOver e with hsame | htaken
      · rwa [hsame]
      · rw [htaken]
        refine ⟨?_, h.dropped, h.ready⟩
        rw [h.split, edges, edges, RemoteWorker.pending, RemoteWorker.pending, List.append_assoc,
          List.append_assoc]
  | move now a =>
      rw [step_move a (h.isWaiting now)] at hfresh hfits ⊢
      have hmoved := RemoteWorker.moved_move d.worker now a
      generalize hresult : d.worker.move now a = result at hmoved hfresh ⊢
      cases hmoved with
      | idle hcurrent => rwa [behind_of_none hcurrent]
      -- Nothing has been dropped, so there is no release to pass over.
      | passedOver hcurrent hqueue hrelease hdropped =>
          rw [h.dropped] at hdropped
          cases hdropped
      | taken hcurrent hqueue hkept =>
          rw [behind_of_none hcurrent]
          refine ⟨?_, h.dropped, h.ready⟩
          rw [h.split, RemoteWorker.pending, RemoteWorker.pending, hcurrent, hqueue]
          rfl
      | overdue hcurrent hstale =>
          rw [behind_overdue hcurrent hstale] at hfresh
          exact absurd hfresh (List.append_ne_nil_of_right_ne_nil _ (List.cons_ne_nil _ _))
      | @attempted e result hcurrent hyoung hattempted =>
          have ha : a.Succeeds d.worker.settings := by
            rw [hbooked.sameSettings]
            exact hworks now a rfl
          obtain ⟨connected, start, finish, hwrote⟩ := RemoteWorker.attempt_of_succeeds now ha
            (hfits _ (h.messageOf_mem hbooked hcurrent))
          rw [RemoteWorker.move_of_fresh hcurrent hyoung, hwrote] at hresult
          rw [← hresult, behind_wrote hcurrent hyoung]
          refine ⟨?_, h.dropped, rfl⟩
          rw [edges_append, h.split, RemoteWorker.pending_of_current hcurrent, List.append_assoc]
          rfl

/-- Where every attempt succeeds and no press is too old, everything is written. -/
theorem Straight.run (h : d.Straight) (hbooked : d.Booked target settings) {steps : List RemoteStep}
    (hworks : ∀ now a, .move now a ∈ steps → a.Succeeds settings)
    (hfresh : (d.run steps).overdue = [])
    (hfits : ∀ m ∈ numbered target (d.run steps).handed, m.fits) : (d.run steps).Straight := by
  induction steps generalizing d with
  | nil => exact h
  | cons σ rest ih =>
      have hlater : (d.step σ).overdue <+: (d.run (σ :: rest)).overdue := (d.step σ).overdue_run rest
      have hmore : (d.step σ).handed <+: (d.run (σ :: rest)).handed := (d.step σ).handed_run rest
      have hstep : (d.step σ).Straight := by
        apply h.step hbooked
        · exact fun now a hσ => hworks now a (hσ ▸ List.mem_cons_self ..)
        · rwa [hfresh, List.prefix_nil] at hlater
        · exact fun m hm => hfits m ((numbered_front target hmore).subset hm)
      exact ih hstep (hbooked.step σ) (fun now a ha => hworks now a (List.mem_cons_of_mem _ ha))
        hfresh hfits

/-- Makes moves. -/
def moves (d : Delivery) (made : List (Time × Attempt)) : Delivery :=
  d.run (made.map fun m => .move m.1 m.2)

/-- Where every attempt succeeds and no press is too old, each move brings the worker closer to the
end. -/
theorem Straight.toDo_moves (h : d.Straight) (hbooked : d.Booked target settings)
    {made : List (Time × Attempt)} (hworks : ∀ m ∈ made, m.2.Succeeds settings)
    (hfresh : (d.moves made).overdue = []) (hfits : ∀ m ∈ numbered target d.handed, m.fits) :
    (d.moves made).worker.toDo ≤ d.worker.toDo - made.length := by
  induction made generalizing d with
  | nil => exact Nat.le_refl _
  | cons m rest ih =>
      have hstep := step_move m.2 (h.isWaiting m.1)
      have hnow : m.2.Succeeds settings := hworks m (List.mem_cons_self ..)
      have hlater : (d.step (.move m.1 m.2)).overdue <+: (d.moves (m :: rest)).overdue :=
        overdue_run ..
      have hnext : (d.step (.move m.1 m.2)).Straight := by
        apply h.step hbooked
        · rintro now a ⟨⟩
          exact hnow
        · rwa [hfresh, List.prefix_nil] at hlater
        · rw [hstep]
          exact hfits
      have hless : (d.step (.move m.1 m.2)).worker.toDo ≤ d.worker.toDo - 1 := by
        have hready := hnext.isWaiting m.1
        rw [hstep] at hready ⊢
        refine (RemoteWorker.moved_move d.worker m.1 m.2).toDo_le.resolve_left fun hwaiting => ?_
        exact Bool.false_ne_true (hready.symm.trans hwaiting)
      have hrest : (d.moves (m :: rest)).worker.toDo ≤
          (d.step (.move m.1 m.2)).worker.toDo - rest.length :=
        ih hnext (hbooked.step _) (fun m hm => hworks m (List.mem_cons_of_mem _ hm)) hfresh
          (hstep ▸ hfits)
      rw [List.length_cons]
      omega

end Delivery

theorem readAll_numbered {target : Target} {edges : List Edge} {pieces : List (List UInt8)}
    (hfits : ∀ m ∈ numbered target edges, m.fits)
    (hstream : pieces.flatten = (FrameWriter.writeAll {} (numbered target edges)).2.stream) :
    FrameReader.readAll {} pieces = (numbered target edges).map .ok := by
  have hecho : ∀ m ∈ numbered target edges, m.echo = .ok m := by
    intro m hm
    obtain ⟨i, hi, rfl⟩ := List.mem_mapIdx.mp hm
    exact if_pos rfl
  rw [FrameReader.readAll_eq_decodeFrames, hstream, FrameWriter.writeAll_eq]
  rw [List.nil_append, decodeFrames_framesOf, List.filter_eq_self.mpr hfits]
  exact List.map_congr_left hecho

/-- **Agreement.** Where every attempt succeeds, no press is too old and every message goes into a
frame, two moves for each edge work off all of them. From the bytes that were written, taken as one
stream in whatever pieces, the input server then hands its device the edges that a worker beside the
device applies, in their order, and behind them one release for each key whose last edge is a press.
-/
theorem serve_written_eq_local (target : Target) (settings : RemoteSettings)
    (steps : List RemoteStep) {d : Delivery}
    (hrun : (Delivery.start target settings).run steps = d) (hplayer : target.player < 256)
    (hworks : ∀ now a, .move now a ∈ steps → a.Succeeds settings) (hfresh : d.overdue = [])
    (hfits : ∀ m ∈ numbered target d.handed, m.fits) :
    (∀ made : List (Time × Attempt), 2 * d.worker.pending.length ≤ made.length →
      (∀ m ∈ made, m.2.Succeeds settings) → (d.moves made).overdue = [] →
        (d.moves made).worker.pending = []) ∧
    (d.worker.pending = [] → ∀ pieces : List (List UInt8),
      pieces.flatten = (FrameWriter.writeAll {} (d.written.map (·.2))).2.stream →
      ∃ releases : List HeldKey,
        InputServer.serve pieces =
          d.handed.map (·.served target) ++ releases.map (·.release) ∧
        releases.Nodup ∧
        (∀ key, key ∈ releases ↔ lastFor key (d.handed.map (·.served target)) = some .press) ∧
        ∀ now device, InputServer.apply now device (InputServer.serve pieces) =
          InputServer.apply now (LocalWorker.run now device { target, queue := d.handed }).2.1
            (releases.map (·.release))) := by
  subst hrun
  have hbooked := (Delivery.start_booked target settings).run steps
  have h := Delivery.start_straight.run (Delivery.start_booked target settings) hworks hfresh hfits
  generalize (Delivery.start target settings).run steps = d at hfresh hfits hbooked h
  constructor
  · intro made henough hsucceed hyoung
    have hleft := h.toDo_moves hbooked hsucceed hyoung hfits
    have hmost := d.worker.toDo_le
    exact RemoteWorker.pending_eq_nil _ (by omega)
  · intro hpending pieces hstream
    have hall : d.edges = d.handed := by rw [h.split, hpending, List.append_nil]
    rw [hbooked.messages, hall] at hstream
    have hread : FrameReader.readAll {} pieces = (numbered target d.handed).map .ok ++ [] := by
      rw [readAll_numbered hfits hstream, List.append_nil]
    obtain ⟨releases, hreleases, hserve⟩ := InputServer.serve_eq hread (fun m hm => by cases hm)
    rw [edge_numbered] at hreleases hserve
    refine ⟨releases, hserve, hreleases.nodup, hreleases.mem_iff, fun now device => ?_⟩
    rw [hserve, InputServer.apply_append, InputServer.apply_served hplayer]

/-- Two keys go down, and one of them comes up again. -/
theorem serve_written_of_three :
    let edge (pair : Nat) (key : String) (transition : Transition) : Edge :=
      { batch := 1, pair, fireAt := 0, key, verb := "jump", transition }
    let target : Target := { mode := .remote, player := 3 }
    let steps : List RemoteStep := [.handOver (edge 0 "a" .press), .move 0 {},
      .handOver (edge 1 "b" .press), .move 1 {}, .handOver (edge 0 "a" .release), .move 2 {},
      .move 2 {}, .move 2 {}, .move 2 {}]
    let d := (Delivery.start target {}).run steps
    ∃ releases : List HeldKey,
      InputServer.serve ((FrameWriter.writeAll {} (d.written.map (·.2))).2.stream.map ([·])) =
        d.handed.map (·.served target) ++ releases.map (·.release) ∧
      (3, "b") ∈ releases ∧ (3, "a") ∉ releases := by
  intro edge target steps d
  have hworks : ∀ now a, .move now a ∈ steps → a.Succeeds {} := by
    intro now a hmove
    obtain rfl : a = {} := by
      simp only [steps, List.mem_cons, RemoteStep.move.injEq, reduceCtorEq, false_or,
        List.not_mem_nil, or_false] at hmove
      tauto
    exact ⟨rfl, Nat.zero_le _, rfl, Nat.zero_le _⟩
  have h := serve_written_eq_local target {} steps (d := d) rfl (by decide) hworks
    (by decide +kernel) (by decide +kernel)
  obtain ⟨releases, hserve, -, hreleases, -⟩ := h.2 (by decide +kernel) _ (flatten_bytes _)
  refine ⟨releases, hserve, (hreleases _).mpr (by decide +kernel), ?_⟩
  rw [hreleases]
  decide +kernel

end CrowdPad
