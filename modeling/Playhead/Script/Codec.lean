import Playhead.Container
/-!
# Codec — a decoder that follows a script

What a packet does when it is decoded is written down with the packet (`Script.Sample`): which frames it yields, and
where decoding fails.  A packet names its place in the script in its first four bytes.
-/
namespace Playhead
namespace Script

/-- What else happens while a frame is received: the session is told to stop, or to seek. -/
structure Cue where
  stop : Bool := false
  seek : Option Float := none
deriving Repr, Inhabited

structure Frame where
  timestamp : Option Ticks := none
  repeats : Int32 := 0
  width : Nat := 0
  height : Nat := 0
  color : Color := ⟨0, 0, 0, 255⟩
  conversionFault : Option String := none
  cue : Cue := {}
deriving Repr, Inhabited

inductive Yield
  | frame (f : Frame)
  | fault (text : String)
  | death
deriving Repr, Inhabited

/-- A packet and what becomes of it. -/
structure Sample where
  stream : Nat := 0
  pts : Option Ticks := none
  dts : Option Ticks := none
  duration : Ticks := 0
  size : Nat := 0
  /-- Where a seek can land, in microseconds. -/
  landing : Option Int := none
  sendFault : Option String := none
  yields : List Yield := []
deriving Repr, Inhabited

inductive Item
  | sample (s : Sample)
  | endOfFile
  | fault (text : String)
  | death
deriving Repr, Inhabited

structure Codec where
  items : Array Item
  pending : List Yield := []
  current : Option Frame := none
  log : List CodecEvent := []
deriving Repr, Inhabited

namespace Codec

/-- The sample that a packet names; a packet too short for a name has none. -/
def sampleOf (k : Codec) (p : Packet) : Option Sample :=
  if p.size < 4 then none
  else match k.items[Bytes.ofLittleEndian (Bytes.leading 4 p.data)]? with
    | some (.sample s) => some s
    | _ => none

def send (k : Codec) (p : Packet) : Outcome Unit × Codec :=
  let k := { k with log := .packet p.pts :: k.log }
  match k.sampleOf p with
  | none => (.ok (), k)
  | some s =>
    match s.sendFault with
    | some text => (.error (.decoding text), k)
    | none => (.ok (), { k with pending := k.pending ++ s.yields })

def receive (k : Codec) : Outcome (Option FrameInfo) × Codec :=
  match k.pending with
  | [] => (.ok none, k)
  | .frame f :: rest =>
    (.ok (some { width := f.width, height := f.height, timestamp := f.timestamp, repeats := f.repeats }),
      { k with pending := rest, current := some f })
  | .fault text :: rest => (.error (.decoding text), { k with pending := rest })
  | .death :: rest => (.died, { k with pending := rest })

def convert (k : Codec) (image : Image) : Outcome Unit × Image × Codec :=
  match k.current with
  | none => (.ok (), image, k)
  | some f =>
    match f.conversionFault with
    | some text => (.error (.conversion text), image, k)
    | none => (.ok (), image.paint f.width f.height f.color, k)

def flush (k : Codec) : Codec := { k with pending := [], log := .flush :: k.log }

def cue (k : Codec) : Cue :=
  match k.pending with
  | .frame f :: _ => f.cue
  | _ => {}

end Codec

instance : VideoCodec Codec where
  send := Codec.send
  receive := Codec.receive
  convert := Codec.convert
  flush k := some k.flush
  events k := k.log.reverse

end Script
end Playhead
