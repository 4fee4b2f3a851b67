import CrowdPad.Wire.Message

/-! Frames: the bytes of a message behind their number, which takes four bytes, highest first. A
writer puts nothing on its stream for a message that is too large. A reader is fed what a connection
delivers, in pieces of any size. A frame whose message cannot be read is passed over; one that claims
to be too large ends the reading. -/

namespace CrowdPad

/-- The most bytes a message may have. -/
def maxPayload : Nat := 65536

/-- The four bytes of a number of 32 bits, highest first. -/
def bigEndian (n : Nat) : List UInt8 :=
  [(n / 16777216).toUInt8, (n / 65536).toUInt8, (n / 256).toUInt8, n.toUInt8]

/-- The number that four bytes stand for, highest first. -/
def fromBigEndian (a b c d : UInt8) : Nat :=
  ((a.toNat * 256 + b.toNat) * 256 + c.toNat) * 256 + d.toNat

/-- The frame of a message. -/
def WireMessage.frame (m : WireMessage) : Except WireError (List UInt8) :=
  let payload := m.payload
  if maxPayload < payload.length then .error (.frameTooLarge payload.length)
  else .ok (bigEndian payload.length ++ payload)

/-- What a writer has put on its stream. -/
structure FrameWriter where
  stream : List UInt8 := []
deriving Repr, DecidableEq, Inhabited

namespace FrameWriter

/-- Writes a message, the whole frame or nothing. -/
def write (writer : FrameWriter) (m : WireMessage) : Except WireError FrameWriter :=
  m.frame.map fun bytes => { stream := writer.stream ++ bytes }

/-- Writes messages one after the other, whatever comes of each. -/
def writeAll (writer : FrameWriter) : List WireMessage → List (Except WireError Unit) × FrameWriter
  | [] => ([], writer)
  | m :: rest =>
    match writer.write m with
    | .ok writer =>
      let (results, writer) := writer.writeAll rest
      (.ok () :: results, writer)
    | .error e =>
      let (results, writer) := writer.writeAll rest
      (.error e :: results, writer)

end FrameWriter

/-- A message, or what was wrong where one should have been. -/
abbrev WireResult := Except WireError WireMessage

/-- Reads all frames of a byte string. -/
def decodeFrames (bytes : List UInt8) : List WireResult :=
  match bytes with
  | [] => []
  | a :: b :: c :: d :: rest =>
    let length := fromBigEndian a b c d
    if maxPayload < length then [.error (.frameTooLarge length)]
    else if rest.length < length then [.error .truncated]
    else WireMessage.ofPayload (rest.take length) :: decodeFrames (rest.drop length)
  | _ => [.error .truncated]
termination_by bytes.length
decreasing_by
  simp only [List.length_drop, List.length_cons]
  omega

/-- What a reader has received and not read yet, and whether it goes on reading. -/
structure FrameReader where
  buffer : Array UInt8 := #[]
  stopped : Bool := false
deriving Repr, Inhabited

namespace FrameReader

/-- The number in the first four bytes, once they are there. -/
def length? (buffer : Array UInt8) : Option Nat :=
  if _ : 4 ≤ buffer.size then some (fromBigEndian buffer[0] buffer[1] buffer[2] buffer[3]) else none

/-- Reads the frames that are complete. -/
def drain (buffer : Array UInt8) : List WireResult × FrameReader :=
  match length? buffer with
  | none => ([], { buffer })
  | some length =>
    if maxPayload < length then ([.error (.frameTooLarge length)], { buffer, stopped := true })
    else if _ : 4 + length ≤ buffer.size then
      let result := WireMessage.ofPayload (buffer.extract 4 (4 + length)).toList
      let (results, reader) := drain (buffer.extract (4 + length) buffer.size)
      (result :: results, reader)
    else ([], { buffer })
termination_by buffer.size
decreasing_by simp_wf; omega

/-- Takes the next piece of the stream. -/
def feed (reader : FrameReader) (piece : List UInt8) : List WireResult × FrameReader :=
  if reader.stopped then ([], reader) else drain (reader.buffer ++ piece)

/-- Takes the end of the stream. -/
def finish (reader : FrameReader) : List WireResult :=
  if reader.stopped || reader.buffer.isEmpty then [] else [.error .truncated]

def readAll (reader : FrameReader) : List (List UInt8) → List WireResult
  | [] => reader.finish
  | piece :: pieces =>
    let (results, reader) := reader.feed piece
    results ++ reader.readAll pieces

end FrameReader

end CrowdPad
