import Playhead.Script.Codec
/-!
# Source — a container that follows a script

Reads take the items in order; behind the last one the medium ends.  A seek goes to the last item that says it can be
landed on at or before the time.
-/
namespace Playhead
namespace Script

structure Source where
  streams : List StreamInfo := []
  items : Array Item := #[]
  duration : Float := 0
  failingSeek : Bool := false
  badCodec : Bool := false
  position : Nat := 0
deriving Repr, Inhabited

namespace Source

/-- The packet of a sample: zeros, with its place in front as far as it fits. -/
def packetOf (place : Nat) (s : Sample) : Packet where
  stream := s.stream
  pts := s.pts
  dts := s.dts
  duration := s.duration
  data := ((Bytes.littleEndian 4 place).take s.size).toByteArray ++ Bytes.zeros (s.size - 4)

def read (s : Source) : Outcome (Option Packet) × Source :=
  match s.items[s.position]? with
  | none => (.ok none, s)
  | some item =>
    let s' := { s with position := s.position + 1 }
    match item with
    | .sample x => (.ok (some (packetOf s.position x)), s')
    | .endOfFile => (.ok none, s')
    | .fault text => (.error (.cannotOpen text), s')
    | .death => (.died, s')

def atEnd (s : Source) : Bool := decide (s.items.size ≤ s.position)

def landsAt (us : Ticks) : Item → Bool
  | .sample x => x.landing.any (fun t => decide (t ≤ us.toInt))
  | _ => false

/-- The last item that a seek can land on, the first item if there is none. -/
def landing (s : Source) (us : Ticks) : Nat :=
  ((List.range s.items.size).filter (fun i => s.items[i]?.any (landsAt us))).getLast?.getD 0

def seek (s : Source) (us : Ticks) : Outcome Unit × Source :=
  if s.failingSeek then (.error (.cannotOpen "seek"), s)
  else (.ok (), { s with position := s.landing us })

def openCodec (s : Source) (stream : Nat) : Except PlayError Codec :=
  if s.badCodec then .error (.unsupportedCodec s!"#{stream}") else .ok { items := s.items }

end Source

instance : Container Source Codec where
  streams := Source.streams
  duration := Source.duration
  description _ := "scripted"
  read := Source.read
  atEnd := Source.atEnd
  seek := Source.seek
  openCodec := Source.openCodec

end Script
end Playhead
