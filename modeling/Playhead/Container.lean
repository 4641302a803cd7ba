import Playhead.Error
import Playhead.Image
import Playhead.Packet
import Playhead.Stream
/-!
# Container — the collaborators of a session

A container gives packets and opens codecs, a codec turns packets into frames and pictures, an audio decoder keeps a
clock.  They are not part of the player: any types with these operations will do.  A call may give a result, fail, or
kill the worker that made it (`Outcome`), and leaves the collaborator in some state in every case.
-/
namespace Playhead

inductive Outcome (α : Type)
  | ok (a : α)
  | error (e : PlayError)
  | died
deriving DecidableEq, Repr

/-- What a codec says about a frame; its pixels stay in the codec until they are asked for. -/
structure FrameInfo where
  width : Nat := 0
  height : Nat := 0
  timestamp : Option Ticks := none
  /-- How many half frames longer than usual the frame stays. -/
  repeats : Int32 := 0
deriving DecidableEq, Repr, Inhabited

inductive CodecEvent
  | packet (pts : Option Ticks)
  | flush
deriving DecidableEq, Repr

/-- A packet is sent, then frames are received until there is none; `convert` paints the frame received last. -/
class VideoCodec (K : Type) where
  send : K → Packet → Outcome Unit × K
  receive : K → Outcome (Option FrameInfo) × K
  /-- Paints into a buffer, which a failing call may have touched. -/
  convert : K → Image → Outcome Unit × Image × K
  /-- Drops the frames of earlier packets; `none` if the codec dies of it. -/
  flush : K → Option K
  /-- What has reached the codec since it was opened. -/
  events : K → List CodecEvent

class Container (C : Type) (K : outParam Type) where
  streams : C → List StreamInfo
  duration : C → Float
  description : C → String
  /-- The next packet, or `none` at the end. -/
  read : C → Outcome (Option Packet) × C
  /-- No packet comes any more, unless somebody seeks. -/
  atEnd : C → Bool
  /-- Goes to a position in microseconds, or to one before it. -/
  seek : C → Ticks → Outcome Unit × C
  openCodec : C → (stream : Nat) → Except PlayError K

def Container.mediaInfo {C K : Type} [Container C K] (c : C) : MediaInfo :=
  MediaInfo.ofStreams (Container.streams c) (Container.duration c)

class AudioDecoder (D : Type) where
  /-- How far it has played, in seconds. -/
  clock : D → Float
  setPaused : D → Bool → D

/-! ## Either of two kinds -/

def liftState {S T α : Type} (f : S → T) (r : Outcome α × S) : Outcome α × T := (r.1, f r.2)

instance {K L : Type} [VideoCodec K] [VideoCodec L] : VideoCodec (K ⊕ L) where
  send
    | .inl k, p => liftState .inl (VideoCodec.send k p)
    | .inr k, p => liftState .inr (VideoCodec.send k p)
  receive
    | .inl k => liftState .inl (VideoCodec.receive k)
    | .inr k => liftState .inr (VideoCodec.receive k)
  convert
    | .inl k, image => let (r, image, k) := VideoCodec.convert k image; (r, image, .inl k)
    | .inr k, image => let (r, image, k) := VideoCodec.convert k image; (r, image, .inr k)
  flush
    | .inl k => (VideoCodec.flush k).map .inl
    | .inr k => (VideoCodec.flush k).map .inr
  events
    | .inl k => VideoCodec.events k
    | .inr k => VideoCodec.events k

instance {C D K L : Type} [Container C K] [Container D L] : Container (C ⊕ D) (K ⊕ L) where
  streams
    | .inl c => Container.streams c
    | .inr c => Container.streams c
  duration
    | .inl c => Container.duration c
    | .inr c => Container.duration c
  description
    | .inl c => Container.description c
    | .inr c => Container.description c
  read
    | .inl c => liftState .inl (Container.read c)
    | .inr c => liftState .inr (Container.read c)
  atEnd
    | .inl c => Container.atEnd c
    | .inr c => Container.atEnd c
  seek
    | .inl c, us => liftState .inl (Container.seek c us)
    | .inr c, us => liftState .inr (Container.seek c us)
  openCodec
    | .inl c, i => (Container.openCodec c i).map .inl
    | .inr c, i => (Container.openCodec c i).map .inr

end Playhead
