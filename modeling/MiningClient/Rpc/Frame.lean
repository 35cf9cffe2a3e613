import MiningClient.Rpc.Trailers
import MiningClient.Wire.Message

namespace MiningClient

/-- A flag byte, the payload's length in four bytes, the payload. It holds a message or, as the last
one, the trailers. -/
inductive Frame
  | data (payload : Bytes)
  | trailers (metadata : Metadata)
  deriving DecidableEq

namespace Frame

def trailerFlag : UInt8 := 0x80

def isTrailer (flags : UInt8) : Bool := flags &&& 0x80 != 0

def isCompressed (flags : UInt8) : Bool := flags &&& 1 != 0

def write (flags : UInt8) (payload : Bytes) : Bytes :=
  flags :: Bytes.ofLength payload.length ++ payload

def ofMessage {α : Type} [Wire.Message α] (m : α) : Bytes := write 0 (Wire.encode m)

def ofTrailers (m : Metadata) : Bytes := write trailerFlag (Utf8.encode (Trailers.text m))

/-- The flags and the payload of the frame at the head of the bytes, and the bytes after it. -/
def cut : Bytes → Option (UInt8 × Bytes × Bytes)
  | flags :: a :: b :: c :: d :: rest =>
    let length := Bytes.toLength a b c d
    if rest.length < length then none else some (flags, rest.take length, rest.drop length)
  | _ => none

theorem cut_length {bs payload rest : Bytes} {flags : UInt8}
    (h : cut bs = some (flags, payload, rest)) : rest.length < bs.length := by
  unfold cut at h
  split at h
  · simp only [] at h
    split at h
    · cases h
    · cases h; simp; omega
  · cases h

theorem cut_write (flags : UInt8) (payload rest : Bytes) (h : payload.length < UInt32.size) :
    cut (write flags payload ++ rest) = some (flags, payload, rest) := by
  simp [write, Bytes.ofLength, cut, Bytes.toLength_ofLength _ h]

end Frame

structure Decoder where
  buffer : Bytes := []
  deriving DecidableEq, Repr

namespace Decoder

def push (d : Decoder) (chunk : Bytes) : Decoder := ⟨d.buffer ++ chunk⟩

def isEmpty (d : Decoder) : Bool := d.buffer.isEmpty

/-- The next frame, nothing while it is not complete. A compressed frame is refused and stays at
the head; a frame with malformed trailers is refused and dropped. -/
def next (d : Decoder) : Except ProtocolError (Option Frame) × Decoder :=
  match Frame.cut d.buffer with
  | none => (.ok none, d)
  | some (flags, payload, rest) =>
    if Frame.isCompressed flags then (.error .compressedFrame, d)
    else if Frame.isTrailer flags then
      ((Trailers.parse payload).map fun m => some (.trailers m), ⟨rest⟩)
    else (.ok (some (.data payload)), ⟨rest⟩)

theorem next_length {d d' : Decoder} {f : Frame} (h : d.next = (.ok (some f), d')) :
    d'.buffer.length < d.buffer.length := by
  unfold next at h
  split at h
  · cases h
  · next hc =>
    have := Frame.cut_length hc
    split at h
    · cases h
    · split at h <;> (simp only [Prod.mk.injEq] at h; rw [← h.2]; exact this)

def drain (d : Decoder) : List Frame × Option ProtocolError × Decoder :=
  match h : d.next with
  | (.ok none, d') => ([], none, d')
  | (.error e, d') => ([], some e, d')
  | (.ok (some f), d') =>
    have := next_length h
    let (frames, stop, last) := drain d'
    (f :: frames, stop, last)
  termination_by d.buffer.length

end Decoder
end MiningClient
