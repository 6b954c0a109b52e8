import Meshcast.DataMessage
import Meshcast.Packet.Basic

/-!
# Meshcast — framing

On a byte stream a message is a frame: its length in four octets, then its bytes. The receiving end
keeps the bytes that have arrived. Once the four octets of a length are there it takes them off and
remembers the length, so the frame is delivered when that many bytes have followed. A length beyond
the limit is refused and stays where it is.
-/

namespace Meshcast

/-- Why a frame cannot be delivered or written. -/
inductive FrameError
  | oversizedInbound
  /-- The message to write is longer than the limit. -/
  | oversizedOutbound
  | undecodable (cause : DecodeError)
  | unencodable (cause : EncodeError)
deriving DecidableEq

def FrameError.message : FrameError → String
  | .oversizedInbound | .oversizedOutbound => "frame size too big"
  | .undecodable cause => cause.message
  | .unencodable cause => cause.message

/-- The longest payload of a frame: eight mebibytes. -/
def maxFrameLength : Nat := 8388608

/-- The receiving end of a framed stream. -/
structure FrameReader where
  /-- The length of the frame under way, once it is known. -/
  awaited : Option Nat := none
  /-- The bytes that have arrived and are not used up. -/
  buffer : Bytes := []
deriving DecidableEq

namespace FrameReader

def feed (reader : FrameReader) (bytes : Bytes) : FrameReader :=
  { reader with buffer := reader.buffer ++ bytes }

/-- Take off the next length, if none is awaited and its four octets are there. -/
def readLength (reader : FrameReader) : Except FrameError FrameReader :=
  match reader.awaited, reader.buffer with
  | none, a :: b :: c :: d :: rest =>
    let length := ofBigEndian [a, b, c, d]
    if maxFrameLength < length then .error .oversizedInbound
    else .ok { awaited := some length, buffer := rest }
  | _, _ => .ok reader

/-- Take off the awaited bytes, if they are all there. -/
def takeAwaited (reader : FrameReader) : Option Bytes × FrameReader :=
  match reader.awaited with
  | none => (none, reader)
  | some length =>
    let front := reader.buffer.take length
    if front.length < length then (none, reader)
    else (some front, { buffer := reader.buffer.drop length })

/-- The payload of the next frame, if all of it has arrived. -/
def next (reader : FrameReader) : Except FrameError (Option Bytes) × FrameReader :=
  match reader.readLength with
  | .error e => (.error e, reader)
  | .ok reader =>
    let (payload, reader) := reader.takeAwaited
    (.ok payload, reader)

/-- The message in the next frame. A frame that holds no message is used up all the same. -/
def nextMessage {α : Type} (decode : Bytes → Except DecodeError α) (reader : FrameReader) :
    Except FrameError (Option α) × FrameReader :=
  match reader.next with
  | (.error e, reader) => (.error e, reader)
  | (.ok none, reader) => (.ok none, reader)
  | (.ok (some payload), reader) =>
    match decode payload with
    | .ok message => (.ok (some message), reader)
    | .error e => (.error (.undecodable e), reader)

def nextPacket (reader : FrameReader) : Except FrameError (Option Packet) × FrameReader :=
  reader.nextMessage Packet.decode

def nextData (reader : FrameReader) : Except FrameError (Option DataMessage) × FrameReader :=
  reader.nextMessage DataMessage.decode

end FrameReader

def frame (payload : Bytes) : Except FrameError Bytes :=
  if maxFrameLength < payload.length then .error .oversizedOutbound
  else .ok (bigEndian 4 payload.length ++ payload)

def framePacket (packet : Packet) : Except FrameError Bytes :=
  match packet.encode with
  | .ok bytes => frame bytes
  | .error e => .error (.unencodable e)

def frameData (message : DataMessage) : Except FrameError Bytes :=
  frame message.encode

end Meshcast
