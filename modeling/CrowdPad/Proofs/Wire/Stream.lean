import CrowdPad.Wire.Frame
import Mathlib

/-! Streams of frames. However a connection cuts a stream into pieces, a reader makes of it what the
stream as a whole stands for: one result for each frame, up to a frame that is too large or cut short.
A frame whose message cannot be read takes its own bytes with it and no others. -/

namespace CrowdPad

/-- The number that bytes stand for, highest first. -/
def numeral (bytes : List UInt8) : Nat := bytes.foldl (fun n byte => 256 * n + byte.toNat) 0

/-- A payload behind its length. -/
def framed (payload : List UInt8) : List UInt8 := bigEndian payload.length ++ payload

/-- What a stream of bytes stands for. -/
inductive Decodes : List UInt8 → List WireResult → Prop where
  | nothing : Decodes [] []
  | noHeader {bytes : List UInt8} (hne : bytes ≠ []) (hshort : bytes.length < 4) :
      Decodes bytes [.error .truncated]
  | tooLarge {header rest : List UInt8} (hheader : header.length = 4)
      (hlarge : maxPayload < numeral header) :
      Decodes (header ++ rest) [.error (.frameTooLarge (numeral header))]
  | cutShort {header rest : List UInt8} (hheader : header.length = 4)
      (hsmall : numeral header ≤ maxPayload) (hshort : rest.length < numeral header) :
      Decodes (header ++ rest) [.error .truncated]
  | frame {header payload rest : List UInt8} {results : List WireResult}
      (hheader : header.length = 4) (hlength : payload.length = numeral header)
      (hsmall : payload.length ≤ maxPayload) (hrest : Decodes rest results) :
      Decodes (header ++ payload ++ rest) (WireMessage.ofPayload payload :: results)

/-! ### The whole stream -/

theorem numeral_bigEndian {n : Nat} (h : n < 4294967296) : numeral (bigEndian n) = n := by
  simp only [numeral, bigEndian, List.foldl_cons, List.foldl_nil, Nat.toUInt8_eq,
    UInt8.toNat_ofNat']
  omega

theorem eq_of_length_four {header : List UInt8} (h : header.length = 4) :
    ∃ a b c d, header = [a, b, c, d] := by
  match header, h with
  | [a, b, c, d], _ => exact ⟨a, b, c, d, rfl⟩

theorem fromBigEndian_eq (a b c d : UInt8) : fromBigEndian a b c d = numeral [a, b, c, d] := by
  simp only [fromBigEndian, numeral, List.foldl_cons, List.foldl_nil]
  omega

section Header

variable {header : List UInt8} (rest : List UInt8) (hheader : header.length = 4)

include hheader

theorem decodeFrames_tooLarge (hlarge : maxPayload < numeral header) :
    decodeFrames (header ++ rest) = [.error (.frameTooLarge (numeral header))] := by
  obtain ⟨a, b, c, d, rfl⟩ := eq_of_length_four hheader
  rw [← fromBigEndian_eq] at hlarge ⊢
  simp only [List.cons_append, List.nil_append, decodeFrames, if_pos hlarge]

theorem decodeFrames_cutShort (hsmall : numeral header ≤ maxPayload)
    (hshort : rest.length < numeral header) :
    decodeFrames (header ++ rest) = [.error .truncated] := by
  obtain ⟨a, b, c, d, rfl⟩ := eq_of_length_four hheader
  rw [← fromBigEndian_eq] at hsmall hshort
  simp only [List.cons_append, List.nil_append, decodeFrames, if_neg (Nat.not_lt.mpr hsmall),
    if_pos hshort]

theorem decodeFrames_frame {payload : List UInt8} (hlength : payload.length = numeral header)
    (hsmall : payload.length ≤ maxPayload) : decodeFrames (header ++ payload ++ rest) =
      WireMessage.ofPayload payload :: decodeFrames rest := by
  obtain ⟨a, b, c, d, rfl⟩ := eq_of_length_four hheader
  rw [← fromBigEndian_eq] at hlength
  have hfits : ¬maxPayload < payload.length := Nat.not_lt.mpr hsmall
  have hwhole : ¬(payload ++ rest).length < payload.length := by
    rw [List.length_append]
    omega
  rw [List.append_assoc]
  simp only [List.cons_append, List.nil_append]
  rw [decodeFrames]
  simp only [← hlength, if_neg hfits, if_neg hwhole, List.take_left, List.drop_left]

end Header

theorem decodeFrames_noHeader {bytes : List UInt8} (hne : bytes ≠ []) (hshort : bytes.length < 4) :
    decodeFrames bytes = [.error .truncated] := by
  match bytes, hne, hshort with
  | [a], _, _ => simp only [decodeFrames]
  | [a, b], _, _ => simp only [decodeFrames]
  | [a, b, c], _, _ => simp only [decodeFrames]

/-- A stream stands for what its frames are read as one after the other. -/
theorem decodes_decodeFrames (bytes : List UInt8) : Decodes bytes (decodeFrames bytes) := by
  fun_induction decodeFrames bytes with
  | case1 => exact .nothing
  | case2 a b c d rest length hlarge =>
      have hvalue : length = numeral [a, b, c, d] := fromBigEndian_eq a b c d
      rw [hvalue] at hlarge ⊢
      exact Decodes.tooLarge rfl hlarge
  | case3 a b c d rest length hsmall hshort =>
      have hvalue : length = numeral [a, b, c, d] := fromBigEndian_eq a b c d
      rw [hvalue] at hsmall hshort
      exact @Decodes.cutShort [a, b, c, d] rest rfl (Nat.not_lt.mp hsmall) hshort
  | case4 a b c d rest length hsmall hwhole ih =>
      have hvalue : length = numeral [a, b, c, d] := fromBigEndian_eq a b c d
      have htake : (rest.take length).length = length := by
        rw [List.length_take]
        omega
      have hframe := @Decodes.frame [a, b, c, d] _ _ _ rfl (htake.trans hvalue) (by omega) ih
      rwa [List.append_assoc, List.take_append_drop] at hframe
  | case5 bytes hne hmore =>
      refine .noHeader hne (Nat.not_le.mp fun hlong => ?_)
      match bytes, hlong with
      | a :: b :: c :: d :: rest, _ => exact hmore a b c d rest rfl

theorem decodeFrames_of_decodes {bytes : List UInt8} {results : List WireResult}
    (h : Decodes bytes results) : decodeFrames bytes = results := by
  induction h with
  | nothing => simp only [decodeFrames]
  | noHeader hne hshort => exact decodeFrames_noHeader hne hshort
  | tooLarge hheader hlarge => exact decodeFrames_tooLarge _ hheader hlarge
  | cutShort hheader hsmall hshort => exact decodeFrames_cutShort _ hheader hsmall hshort
  | frame hheader hlength hsmall _ ih => rw [decodeFrames_frame _ hheader hlength hsmall, ih]

/-- Behind complete frames a stream is read as if it began there. -/
theorem decodeFrames_flatMap_framed {payloads : List (List UInt8)} (rest : List UInt8)
    (hsmall : ∀ payload ∈ payloads, payload.length ≤ maxPayload) :
    decodeFrames (payloads.flatMap framed ++ rest) =
      payloads.map WireMessage.ofPayload ++ decodeFrames rest := by
  induction payloads with
  | nil => rfl
  | cons payload others ih =>
      have hfirst := hsmall payload (List.mem_cons_self ..)
      have hlength : payload.length = numeral (bigEndian payload.length) := by
        rw [numeral_bigEndian]
        unfold maxPayload at hfirst
        omega
      have hothers := ih fun other hother => hsmall other (List.mem_cons_of_mem _ hother)
      rw [List.flatMap_cons, framed, List.append_assoc, decodeFrames_frame _ rfl hlength hfirst,
        hothers, List.map_cons, List.cons_append]

/-! ### Pieces -/

namespace FrameReader

/-- What a reader is to make of the rest of its stream. -/
def ahead (reader : FrameReader) (rest : List UInt8) : List WireResult :=
  if reader.stopped then [] else decodeFrames (reader.buffer.toList ++ rest)

theorem length?_eq_some {buffer : Array UInt8} {n : Nat} (h : length? buffer = some n) :
    ∃ header rest, buffer.toList = header ++ rest ∧ header.length = 4 ∧ n = numeral header := by
  unfold length? at h
  split at h
  · rename_i hsize
    have hheader : (buffer.toList.take 4).length = 4 := by
      rw [List.length_take, Array.length_toList]
      omega
    refine ⟨buffer.toList.take 4, buffer.toList.drop 4, (List.take_append_drop ..).symm, hheader, ?_⟩
    obtain ⟨a, b, c, d, hbytes⟩ := eq_of_length_four hheader
    have hget (i : Nat) (hi : i < 4) : buffer[i]? = [a, b, c, d][i]? := by
      rw [← hbytes, List.getElem?_take_of_lt hi, Array.getElem?_toList]
    obtain ⟨_, h0⟩ := Array.getElem?_eq_some_iff.mp (hget 0 (by decide))
    obtain ⟨_, h1⟩ := Array.getElem?_eq_some_iff.mp (hget 1 (by decide))
    obtain ⟨_, h2⟩ := Array.getElem?_eq_some_iff.mp (hget 2 (by decide))
    obtain ⟨_, h3⟩ := Array.getElem?_eq_some_iff.mp (hget 3 (by decide))
    rw [hbytes, ← fromBigEndian_eq, ← Option.some.inj h, h0, h1, h2, h3]
  · cases h

theorem length?_eq_none {buffer : Array UInt8} (h : length? buffer = none) :
    buffer.toList.length < 4 := by
  unfold length? at h
  split at h
  · cases h
  · rw [Array.length_toList]
    omega

/-- What a reader takes out of its buffer is the beginning of what the stream stands for. -/
theorem drain_append_ahead (buffer : Array UInt8) (rest : List UInt8) :
    (drain buffer).1 ++ (drain buffer).2.ahead rest = decodeFrames (buffer.toList ++ rest) := by
  fun_induction drain buffer with
  | case1 buffer hnone => rfl
  | case2 buffer length hlength hlarge =>
      obtain ⟨header, tail, hbuffer, hheader, rfl⟩ := length?_eq_some hlength
      rw [hbuffer, List.append_assoc, decodeFrames_tooLarge _ hheader hlarge]
      rfl
  | case3 buffer length hlength hsmall hwhole result results reader hdrain ih =>
      obtain ⟨header, tail, hbuffer, hheader, rfl⟩ := length?_eq_some hlength
      have hsize : buffer.size = 4 + tail.length := by
        rw [← Array.length_toList, hbuffer, List.length_append, hheader]
      have hpayload : (buffer.extract 4 (4 + numeral header)).toList = tail.take (numeral header) := by
        rw [Array.toList_extract, hbuffer, List.extract_eq_take_drop, List.drop_left' hheader,
          Nat.add_sub_cancel_left]
      have hbehind : (buffer.extract (4 + numeral header) buffer.size).toList =
          tail.drop (numeral header) := by
        rw [Array.toList_extract, hbuffer, List.extract_eq_take_drop, ← List.drop_drop,
          List.drop_left' hheader, List.take_of_length_le]
        rw [List.length_drop]
        omega
      have hsplit : buffer.toList ++ rest =
          header ++ tail.take (numeral header) ++ (tail.drop (numeral header) ++ rest) := by
        rw [hbuffer]
        simp only [List.append_assoc, List.take_append_drop, ← List.append_assoc (tail.take _)]
      have hlength : (tail.take (numeral header)).length = numeral header := by
        rw [List.length_take]
        omega
      rw [hdrain, hbehind] at ih
      rw [hsplit, decodeFrames_frame _ hheader hlength (by omega), ← ih, ← hpayload]
      rfl
  | case4 buffer length hlength hsmall hshort => rfl

theorem finish_eq_truncated {buffer : Array UInt8} (hne : buffer.toList ≠ []) :
    finish { buffer } = [.error .truncated] := by
  have hsome : buffer.isEmpty = false := by
    rw [← Array.isEmpty_toList]
    simpa using hne
  rw [finish, if_neg]
  simp [hsome]

theorem finish_empty : finish {} = ahead {} [] := by
  simp [finish, ahead, decodeFrames]

/-- What is left in the buffer when the stream ends is a frame that was cut short. -/
theorem finish_drain (buffer : Array UInt8) :
    (drain buffer).2.finish = (drain buffer).2.ahead [] := by
  fun_induction drain buffer with
  | case1 buffer hnone =>
      by_cases hempty : buffer.toList = []
      · rw [Array.toList_eq_nil_iff.mp hempty]
        exact finish_empty
      · rw [finish_eq_truncated hempty, ahead, List.append_nil,
          decodeFrames_noHeader hempty (length?_eq_none hnone)]
        rfl
  | case2 => rfl
  | case3 buffer length hlength hsmall hwhole result results reader hdrain ih =>
      rwa [hdrain] at ih
  | case4 buffer length hlength hsmall hshort =>
      obtain ⟨header, tail, hbuffer, hheader, rfl⟩ := length?_eq_some hlength
      have hsize : buffer.size = 4 + tail.length := by
        rw [← Array.length_toList, hbuffer, List.length_append, hheader]
      have hne : buffer.toList ≠ [] := by
        rw [← List.length_pos_iff, Array.length_toList]
        omega
      rw [finish_eq_truncated hne, ahead, hbuffer, List.append_nil,
        decodeFrames_cutShort _ hheader (Nat.not_lt.mp hsmall) (by omega)]
      rfl

theorem readAll_cons (reader : FrameReader) (piece : List UInt8) (pieces : List (List UInt8)) :
    reader.readAll (piece :: pieces) =
      (reader.feed piece).1 ++ (reader.feed piece).2.readAll pieces := rfl

theorem readAll_eq_ahead {reader : FrameReader} (h : reader.finish = reader.ahead [])
    (pieces : List (List UInt8)) : reader.readAll pieces = reader.ahead pieces.flatten := by
  induction pieces generalizing reader with
  | nil => exact h
  | cons piece pieces ih =>
      rw [readAll_cons]
      cases hstopped : reader.stopped with
      | true =>
          have hfeed : reader.feed piece = ([], reader) := by rw [feed, if_pos hstopped]
          rw [hfeed, ih h, ahead, ahead, if_pos hstopped, if_pos hstopped]
          rfl
      | false =>
          have hfeed : reader.feed piece = drain (reader.buffer ++ piece) := by
            rw [feed, if_neg (by simp [hstopped])]
          have hdrain := drain_append_ahead (reader.buffer ++ piece) pieces.flatten
          rw [hfeed, ih (finish_drain _), hdrain, ahead, if_neg (by simp [hstopped]),
            List.flatten_cons, Array.toList_appendList, List.append_assoc]

theorem readAll_eq_decodeFrames (pieces : List (List UInt8)) :
    FrameReader.readAll {} pieces = decodeFrames pieces.flatten :=
  readAll_eq_ahead finish_empty pieces

end FrameReader

/-- **Streams.** However a stream is cut into pieces, it is read as what it stands for as a whole.
Behind complete frames, whether or not their messages can be read, it is read as if it began there. -/
theorem readAll_eq_iff_decodes (pieces : List (List UInt8)) :
    (∀ results, FrameReader.readAll {} pieces = results ↔ Decodes pieces.flatten results) ∧
      ∀ (payloads : List (List UInt8)) (rest : List UInt8),
        (∀ payload ∈ payloads, payload.length ≤ maxPayload) →
        pieces.flatten = payloads.flatMap framed ++ rest →
          FrameReader.readAll {} pieces =
            payloads.map WireMessage.ofPayload ++ FrameReader.readAll {} [rest] := by
  have hall (pieces : List (List UInt8)) :
      FrameReader.readAll {} pieces = decodeFrames pieces.flatten :=
    FrameReader.readAll_eq_ahead FrameReader.finish_empty pieces
  constructor
  · intro results
    rw [hall]
    exact ⟨fun h => h ▸ decodes_decodeFrames _, decodeFrames_of_decodes⟩
  · intro payloads rest hsmall hstream
    rw [hall, hall, hstream, decodeFrames_flatMap_framed rest hsmall, List.flatten_singleton]

/-- A frame in three pieces holds no message, and the one behind it is cut short. -/
theorem readAll_invalid_payload :
    FrameReader.readAll {} [[0, 0, 0], [1, 120, 0], [0]] =
      [.error .invalidPayload, .error .truncated] := by
  have hinvalid : WireMessage.ofPayload [120] = .error .invalidPayload := by cbv
  have hrest : FrameReader.readAll {} [[0, 0]] = [.error .truncated] :=
    ((readAll_eq_iff_decodes [[0, 0]]).1 _).mpr (.noHeader (by decide) (by decide))
  have hread := (readAll_eq_iff_decodes [[0, 0, 0], [1, 120, 0], [0]]).2 [[120]] [0, 0]
    (by simp [maxPayload]) rfl
  rw [hread, hrest, List.map_singleton, hinvalid]
  rfl

end CrowdPad
