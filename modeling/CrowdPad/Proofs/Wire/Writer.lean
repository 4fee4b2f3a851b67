import CrowdPad.Proofs.Wire.Message
import CrowdPad.Proofs.Wire.Stream

/-! What a writer puts on its stream is read as it was written: a frame for each message that is not too
large, nothing for the others, and nothing behind them. -/

namespace CrowdPad

namespace WireMessage

/-- Whether a message goes into a frame. -/
def fits (m : WireMessage) : Bool := m.payload.length ≤ maxPayload

/-- What comes of writing a message. -/
def outcome (m : WireMessage) : Except WireError Unit :=
  if m.fits then .ok () else .error (.frameTooLarge m.payload.length)

theorem fits_iff {m : WireMessage} : m.fits ↔ m.payload.length ≤ maxPayload := by
  rw [fits, decide_eq_true_iff]

theorem frame_of_fits {m : WireMessage} (h : m.fits) : m.frame = .ok (framed m.payload) := by
  rw [frame, if_neg (Nat.not_lt.mpr (fits_iff.mp h)), framed]

theorem frame_of_not_fits {m : WireMessage} (h : ¬m.fits) :
    m.frame = .error (.frameTooLarge m.payload.length) := by
  rw [frame, if_pos (Nat.not_le.mp (mt fits_iff.mpr h))]

end WireMessage

/-- The frames of those messages that go into one. -/
def framesOf (messages : List WireMessage) : List UInt8 :=
  (messages.filter (·.fits)).flatMap fun m => framed m.payload

theorem FrameWriter.writeAll_eq (writer : FrameWriter) (messages : List WireMessage) :
    writer.writeAll messages =
      (messages.map (·.outcome), { stream := writer.stream ++ framesOf messages }) := by
  induction messages generalizing writer with
  | nil => simp [writeAll, framesOf]
  | cons m rest ih =>
      by_cases hfits : m.fits
      · have hwrite : writer.write m = .ok { stream := writer.stream ++ framed m.payload } := by
          rw [write, WireMessage.frame_of_fits hfits]
          rfl
        have houtcome : m.outcome = .ok () := if_pos hfits
        have hframes : framesOf (m :: rest) = framed m.payload ++ framesOf rest := by
          rw [framesOf, List.filter_cons_of_pos hfits, List.flatMap_cons]
          rfl
        rw [writeAll, hwrite]
        simp only [ih, List.map_cons, houtcome, hframes, List.append_assoc]
      · have hwrite : writer.write m = .error (.frameTooLarge m.payload.length) := by
          rw [write, WireMessage.frame_of_not_fits hfits]
          rfl
        have houtcome : m.outcome = .error (.frameTooLarge m.payload.length) := if_neg hfits
        have hframes : framesOf (m :: rest) = framesOf rest := by
          rw [framesOf, List.filter_cons_of_neg hfits]
          rfl
        rw [writeAll, hwrite]
        simp only [ih, List.map_cons, houtcome, hframes]

theorem decodeFrames_framesOf (messages : List WireMessage) :
    decodeFrames (framesOf messages) = (messages.filter (·.fits)).map (·.echo) := by
  have hsmall : ∀ payload ∈ (messages.filter (·.fits)).map (·.payload),
      payload.length ≤ maxPayload := by
    intro payload hpayload
    obtain ⟨m, hm, rfl⟩ := List.mem_map.mp hpayload
    exact WireMessage.fits_iff.mp (List.mem_filter.mp hm).2
  have hread := decodeFrames_flatMap_framed [] hsmall
  rw [List.flatMap_map, List.append_nil, decodeFrames, List.append_nil, List.map_map] at hread
  refine hread.trans (List.map_congr_left fun m _ => ?_)
  exact m.ofPayload_payload

theorem flatten_bytes (stream : List UInt8) : (stream.map ([·])).flatten = stream := by
  rw [← List.flatMap_def, List.flatMap_singleton']

/-- **Round trip.** Each message that goes into a frame is on the stream as one, in the order of
writing, and the others are refused without a byte. However the stream is cut into pieces, a reader
gets back each message written, or its version where that is another one, and the stream's clean end. -/
theorem readAll_writeAll (messages : List WireMessage) {pieces : List (List UInt8)}
    (hstream : pieces.flatten = (FrameWriter.writeAll {} messages).2.stream) :
    (FrameWriter.writeAll {} messages).1 = messages.map (·.outcome) ∧
      (FrameWriter.writeAll {} messages).2.stream = framesOf messages ∧
      FrameReader.readAll {} pieces = (messages.filter (·.fits)).map (·.echo) := by
  rw [FrameReader.readAll_eq_decodeFrames, hstream, FrameWriter.writeAll_eq]
  exact ⟨rfl, rfl, decodeFrames_framesOf messages⟩

/-- Two messages that arrive byte by byte, the second of another version. -/
theorem readAll_writeAll_bytes :
    FrameReader.readAll {} ((FrameWriter.writeAll {}
        [⟨1, 1, "a\"\\\n\x01é😀", .press, 18446744073709551615⟩, ⟨2, 0, "", .release, 0⟩]).2.stream.map
          ([·])) =
      [.ok ⟨1, 1, "a\"\\\n\x01é😀", .press, 18446744073709551615⟩, .error (.unsupportedVersion 2)] := by
  rw [(readAll_writeAll _ (flatten_bytes _)).2.2, List.filter_cons_of_pos (by decide +kernel),
    List.filter_cons_of_pos (by decide +kernel)]
  rfl

end CrowdPad
