import LiveLisp.Backend.Result
import LiveLisp.Text.Utf8
/-!
# Frames on the wire

A request is the UTF-8 of a fragment of code and a terminator. A response goes up to its
terminator; on the way every flush mark hands over what came before it, as text that the running
code printed. What is left at the terminator is the payload. Bytes become text only at a mark, so
that no character is cut by the way the bytes arrive.
-/

namespace LiveLisp.Backend

open Text

/-- Ends a request or a response. -/
def terminator : UInt8 := 0x00

/-- Hands over printed text inside a response. -/
def flushMark : UInt8 := 0x01

/-- The bytes of a request. -/
def requestFrame (code : String) : List UInt8 := Utf8.encode code ++ [terminator]

/-- What one attempt to read from a connection gives. No bytes at all are the end of what the
other side sends. -/
inductive Delivery where
  | bytes (chunk : List UInt8)
  | interrupted
  | failed (reason : String)
  deriving DecidableEq, Repr, Inhabited

/-- The receiving side of a connection: bytes that have arrived, and what reading on will give. -/
structure Incoming where
  buffer : List UInt8
  pending : List Delivery
  deriving DecidableEq, Repr, Inhabited

/-- What is known after passing over some bytes of a response. `kept` are the bytes since the
last mark, the latest first, and `rest` is what follows the terminator, once it has come. -/
structure Scan where
  flushed : List String
  kept : List UInt8
  rest : Option (List UInt8)
  deriving DecidableEq, Repr, Inhabited

/-- The text of kept bytes. -/
def keptText (kept : List UInt8) : String := Utf8.decodeLossy kept.reverse

/-- Passes over bytes up to the terminator. -/
def scan (kept : List UInt8) : List UInt8 → Scan
  | [] => ⟨[], kept, none⟩
  | b :: rest =>
    if b = flushMark then
      let s := scan [] rest
      { s with flushed := keptText kept :: s.flushed }
    else if b = terminator then ⟨[], kept, some rest⟩
    else scan (b :: kept) rest

/-- A response, or the failure to get one, with the text handed over on the way and the
connection afterwards. -/
structure Reception where
  flushed : List String
  payload : Except Failure String
  incoming : Incoming

namespace Reception

/-- The reception with more text handed over before. -/
def after (flushed : List String) (r : Reception) : Reception :=
  { r with flushed := flushed ++ r.flushed }

end Reception

/-- Reads on until a response is complete; `kept` are the bytes of it since its last mark,
the latest first. -/
def receiveFrom (kept : List UInt8) : List Delivery → Reception
  | [] => ⟨[], .error .connectionClosed, ⟨[], []⟩⟩
  | .interrupted :: pending => receiveFrom kept pending
  | .failed reason :: pending => ⟨[], .error (.transfer reason), ⟨[], pending⟩⟩
  | .bytes [] :: pending => ⟨[], .error .connectionClosed, ⟨[], pending⟩⟩
  | .bytes (b :: chunk) :: pending =>
    let s := scan kept (b :: chunk)
    match s.rest with
    | some rest => ⟨s.flushed, .ok (keptText s.kept), ⟨rest, pending⟩⟩
    | none => (receiveFrom s.kept pending).after s.flushed

namespace Incoming

/-- Receives the next response. -/
def receive (i : Incoming) : Reception :=
  let s := scan [] i.buffer
  match s.rest with
  | some rest => ⟨s.flushed, .ok (keptText s.kept), ⟨rest, i.pending⟩⟩
  | none => (receiveFrom s.kept i.pending).after s.flushed

/-- The connection after the other side has sent more. -/
def extend (i : Incoming) (more : List Delivery) : Incoming :=
  { i with pending := i.pending ++ more }

end Incoming

end LiveLisp.Backend
