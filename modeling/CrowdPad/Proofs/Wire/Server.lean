import CrowdPad.Proofs.Wire.Stream
import CrowdPad.Wire.Server

/-! What the input server hands to its device. The keys it holds are those whose last message is a
press, so that the releases behind the messages leave no key pressed, however the connection ends. -/

namespace CrowdPad

/-- The key that an edge is for. -/
def ServedEdge.heldKey (e : ServedEdge) : HeldKey := (e.player, e.key)

/-- The edge that a message asks for. -/
def WireMessage.edge (m : WireMessage) : ServedEdge :=
  { player := m.player, key := m.key, transition := m.transition }

/-- The release of a key. -/
def HeldKey.release (key : HeldKey) : ServedEdge :=
  { player := key.1, key := key.2, transition := .release }

/-- What the last edge for a key does to it. -/
def lastFor (key : HeldKey) (edges : List ServedEdge) : Option Transition :=
  ((edges.filter (·.heldKey = key)).getLast?).map (·.transition)

/-- What was read is messages up to the first error. -/
theorem exists_messages_append (results : List WireResult) :
    ∃ (messages : List WireMessage) (tail : List WireResult),
      results = messages.map .ok ++ tail ∧ ∀ m, tail.head? ≠ some (.ok m) := by
  induction results with
  | nil => exact ⟨[], [], rfl, fun m h => by cases h⟩
  | cons result rest ih =>
      cases result with
      | ok m =>
          obtain ⟨messages, tail, hsplit, htail⟩ := ih
          exact ⟨m :: messages, tail, congrArg (.ok m :: ·) hsplit, htail⟩
      | error error => exact ⟨[], .error error :: rest, rfl, fun m h => by cases h⟩

section LastFor

variable {key : HeldKey} {e : ServedEdge} (edges : List ServedEdge)

theorem lastFor_append_of_eq (h : e.heldKey = key) :
    lastFor key (edges ++ [e]) = some e.transition := by
  rw [lastFor, List.filter_append, List.filter_cons_of_pos (by simpa using h), List.filter_nil,
    List.getLast?_concat, Option.map_some]

theorem lastFor_append_of_ne (h : e.heldKey ≠ key) :
    lastFor key (edges ++ [e]) = lastFor key edges := by
  rw [lastFor, List.filter_append, List.filter_cons_of_neg (by simpa using h), List.filter_nil,
    List.append_nil, lastFor]

/-- A key is released by a release behind everything else. -/
theorem lastFor_append_release {releases : List HeldKey} :
    lastFor key (edges ++ releases.map (·.release)) =
      if key ∈ releases then some .release else lastFor key edges := by
  induction releases using List.reverseRecOn with
  | nil => simp
  | append_singleton releases last ih =>
      rw [List.map_append, List.map_singleton, ← List.append_assoc]
      by_cases hlast : last = key
      · rw [lastFor_append_of_eq _ (show last.release.heldKey = key from hlast),
          if_pos (by simp [hlast])]
        rfl
      · rw [lastFor_append_of_ne _ (show last.release.heldKey ≠ key from hlast), ih]
        simp [Ne.symm hlast]

theorem lastFor_heldKey_ne_none {edges : List ServedEdge} (h : e ∈ edges) :
    lastFor e.heldKey edges ≠ none := by
  intro hnone
  rw [lastFor, Option.map_eq_none_iff, List.getLast?_eq_none_iff] at hnone
  exact List.filter_eq_nil_iff.mp hnone e h (decide_eq_true rfl)

end LastFor

namespace InputServer

theorem mem_hold {held : List HeldKey} {m : WireMessage} {key : HeldKey} :
    key ∈ hold held m ↔ if m.edge.heldKey = key then m.transition = .press else key ∈ held := by
  have hself : m.edge.heldKey = (m.player, m.key) := rfl
  rw [hself, hold]
  by_cases hkey : (m.player, m.key) = key
  · rw [if_pos hkey, hkey]
    cases m.transition with
    | press =>
        by_cases hmem : held.contains key <;> simp_all
    | release => simp
  · rw [if_neg hkey]
    cases m.transition with
    | press =>
        by_cases hmem : held.contains (m.player, m.key)
        · rw [if_pos hmem]
        · rw [if_neg hmem]
          simp [Ne.symm hkey]
    | release => simp [Ne.symm hkey]

theorem nodup_hold {held : List HeldKey} (h : held.Nodup) (m : WireMessage) :
    (hold held m).Nodup := by
  unfold hold
  cases m.transition with
  | press =>
      by_cases hmem : (m.player, m.key) ∈ held
      · rwa [if_pos (List.contains_iff_mem.mpr hmem)]
      · rw [if_neg (mt List.contains_iff_mem.mp hmem)]
        exact h.append (List.nodup_singleton _) (by simpa using hmem)
  | release => exact h.filter _

/-- Whether these are the keys that some edges leave pressed. -/
structure LeftPressed (edges : List ServedEdge) (held : List HeldKey) : Prop where
  nodup : held.Nodup
  mem_iff : ∀ key, key ∈ held ↔ lastFor key edges = some .press

theorem LeftPressed.hold {edges : List ServedEdge} {held : List HeldKey}
    (h : LeftPressed edges held) (m : WireMessage) :
    LeftPressed (edges ++ [m.edge]) (hold held m) := by
  refine ⟨nodup_hold h.nodup m, fun key => ?_⟩
  rw [mem_hold]
  split
  · rename_i hkey
    rw [lastFor_append_of_eq _ hkey, Option.some.injEq]
    rfl
  · rename_i hkey
    rw [lastFor_append_of_ne _ hkey]
    exact h.mem_iff key

/-- Once they are released, no key is pressed. -/
theorem LeftPressed.lastFor_released {edges : List ServedEdge} {held : List HeldKey}
    (h : LeftPressed edges held) {e : ServedEdge} (he : e ∈ edges ++ held.map (·.release)) :
    lastFor e.heldKey (edges ++ held.map (·.release)) = some .release := by
  have hsome := lastFor_heldKey_ne_none he
  rw [lastFor_append_release] at hsome ⊢
  by_cases hheld : e.heldKey ∈ held
  · rw [if_pos hheld]
  · rw [if_neg hheld] at hsome ⊢
    have hup := mt (h.mem_iff e.heldKey).mpr hheld
    cases hlast : lastFor e.heldKey edges with
    | none => exact absurd hlast hsome
    | some last =>
        cases last with
        | press => exact absurd hlast hup
        | release => rfl

/-- The keys held when the reading ends are released behind the messages. -/
theorem serveHolding_append {edges : List ServedEdge} {held : List HeldKey}
    (h : LeftPressed edges held) (messages : List WireMessage) {tail : List WireResult}
    (htail : ∀ m, tail.head? ≠ some (.ok m)) :
    ∃ releases, LeftPressed (edges ++ messages.map (·.edge)) releases ∧
      serveHolding held (messages.map .ok ++ tail) =
        messages.map (·.edge) ++ releases.map (·.release) := by
  induction messages generalizing edges held with
  | nil =>
      refine ⟨held, by simpa using h, ?_⟩
      rw [List.map_nil, List.nil_append, serveHolding]
      · rfl
      · rintro m rest rfl
        exact htail m rfl
  | cons m rest ih =>
      obtain ⟨releases, hreleases, hserve⟩ := ih (h.hold m)
      refine ⟨releases, ?_, ?_⟩
      · rwa [List.append_assoc] at hreleases
      · rw [List.map_cons, List.cons_append, serveHolding, hserve]
        rfl

/-- A stream that stands for messages up to the first error. -/
theorem serve_eq {pieces : List (List UInt8)} {messages : List WireMessage}
    {tail : List WireResult} (hread : FrameReader.readAll {} pieces = messages.map .ok ++ tail)
    (htail : ∀ m, tail.head? ≠ some (.ok m)) :
    ∃ releases, LeftPressed (messages.map (·.edge)) releases ∧
      serve pieces = messages.map (·.edge) ++ releases.map (·.release) := by
  have hnothing : LeftPressed [] [] := ⟨List.nodup_nil, fun key => by simp [lastFor]⟩
  rw [serve, hread]
  exact serveHolding_append hnothing messages htail

/-- The device takes the edges for the keys that it has, in their order. -/
theorem apply_inputs (now : Time) (device : Device) (edges : List ServedEdge) :
    (apply now device edges).inputs = device.inputs ++
      (edges.filter fun e => !device.failing.contains e.key).map (inputOf now) := by
  induction edges generalizing device with
  | nil => simp [apply]
  | cons e rest ih =>
      rw [apply, List.foldl_cons, ← apply, ih, Device.applyIfAble, Device.apply]
      have hkey : (inputOf now e).key = e.key := rfl
      rw [hkey]
      by_cases hfailing : device.failing.contains e.key
      · rw [List.filter_cons_of_neg (by simpa using hfailing), if_pos hfailing]
      · rw [List.filter_cons_of_pos (by simpa using hfailing), if_neg hfailing, List.map_cons,
          List.append_assoc]
        rfl

end InputServer

/-- **Held keys.** Whatever a client sends and however its connection ends, the device is handed the
edges of the messages up to the first error and then, once for each, the releases of the keys whose
last message is a press, so that the last edge for every key is a release. An edge that the device
refuses holds up no other. -/
theorem serve_releases_what_is_pressed (pieces : List (List UInt8)) :
    ∃ (messages : List WireMessage) (tail : List WireResult) (releases : List HeldKey),
      Decodes pieces.flatten (messages.map .ok ++ tail) ∧ (∀ m, tail.head? ≠ some (.ok m)) ∧
      InputServer.serve pieces = messages.map (·.edge) ++ releases.map (·.release) ∧
      releases.Nodup ∧
      (∀ key, key ∈ releases ↔ lastFor key (messages.map (·.edge)) = some .press) ∧
      (∀ e ∈ InputServer.serve pieces,
        lastFor e.heldKey (InputServer.serve pieces) = some .release) ∧
      ∀ now device, (InputServer.apply now device (InputServer.serve pieces)).inputs =
        device.inputs ++ ((InputServer.serve pieces).filter fun e =>
          !device.failing.contains e.key).map (InputServer.inputOf now) := by
  obtain ⟨messages, tail, hsplit, htail⟩ := exists_messages_append (decodeFrames pieces.flatten)
  have hread := (FrameReader.readAll_eq_decodeFrames pieces).trans hsplit
  obtain ⟨releases, hreleases, hserve⟩ := InputServer.serve_eq hread htail
  refine ⟨messages, tail, releases, hsplit ▸ decodes_decodeFrames _, htail, hserve,
    hreleases.nodup, hreleases.mem_iff, fun e he => ?_,
    fun now device => InputServer.apply_inputs now device _⟩
  rw [hserve] at he ⊢
  exact hreleases.lastFor_released he

end CrowdPad
