import Playhead.Container
import Playhead.Fifo
/-!
# Codec — the decoder of the test pattern

Every packet is one frame.  Its first eight bytes are the number of the frame, low byte first, and the frame is painted
in a colour that its number decides.
-/
namespace Playhead
namespace TestPattern

/-- The colour of a frame: the low sixteen bits of its number can be read off it. -/
def colorOf (frame : Nat) : Color :=
  ⟨UInt8.ofNat frame, UInt8.ofNat (frame / 256), UInt8.ofNat (frame * 37), 255⟩

structure Codec where
  width : Nat
  height : Nat
  /-- The frames that were sent and not yet received, by number and time stamp. -/
  pending : Fifo (Nat × Option Ticks) := {}
  current : Nat := 0
  log : List CodecEvent := []
deriving Repr, Inhabited

namespace Codec

/-- A packet that is too short for a frame number is refused and leaves no trace. -/
def send (k : Codec) (p : Packet) : Outcome Unit × Codec :=
  if p.size < 8 then (.error (.decoding s!"包太短: {p.size} 字节"), k)
  else
    (.ok (), { k with
      pending := k.pending.push (Bytes.ofLittleEndian (Bytes.leading 8 p.data), p.pts)
      log := .packet p.pts :: k.log })

def receive (k : Codec) : Outcome (Option FrameInfo) × Codec :=
  match k.pending.pop? with
  | none => (.ok none, k)
  | some ((frame, pts), pending) =>
    (.ok (some { width := k.width, height := k.height, timestamp := pts }), { k with pending, current := frame })

def convert (k : Codec) (image : Image) : Outcome Unit × Image × Codec :=
  (.ok (), image.paint k.width k.height (colorOf k.current), k)

def flush (k : Codec) : Codec := { k with pending := {}, log := .flush :: k.log }

end Codec

instance : VideoCodec Codec where
  send := Codec.send
  receive := Codec.receive
  convert := Codec.convert
  flush k := some k.flush
  events k := k.log.reverse

end TestPattern
end Playhead
