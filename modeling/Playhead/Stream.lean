import Playhead.TimeBase
/-!
# Stream — the streams of a container and what they say about the medium
-/
namespace Playhead

inductive StreamKind
  | video | audio | other
deriving DecidableEq, Repr, Inhabited

/-- One stream of a container; packets name it by `index`. -/
structure StreamInfo where
  index : Nat := 0
  kind : StreamKind := .other
  timeBase : TimeBase := {}
  /-- The mean frame rate; an invalid fraction if it is not known. -/
  frameRate : TimeBase := {}
  codec : String := ""
  width : Nat := 0
  height : Nat := 0
  sampleRate : Nat := 0
  channels : Nat := 0
deriving DecidableEq, Repr, Inhabited

/-- The nominal time between two frames: the reciprocal of the frame rate, or one tick if the rate is unknown. -/
def StreamInfo.frameDuration (s : StreamInfo) : Float :=
  if s.frameRate.isValid then Float.ofInt s.frameRate.den.toInt / Float.ofInt s.frameRate.num.toInt
  else s.timeBase.toFloat

def firstOf (kind : StreamKind) (streams : List StreamInfo) : Option StreamInfo :=
  streams.find? (fun s => decide (s.kind = kind))

structure MediaInfo where
  duration : Float := 0
  width : Nat := 0
  height : Nat := 0
  fps : Float := 0
  videoCodec : String := ""
  audioCodec : String := ""
  sampleRate : Nat := 0
  channels : Nat := 0
deriving Repr, Inhabited

namespace MediaInfo

def withVideo (info : MediaInfo) (s : StreamInfo) : MediaInfo :=
  { info with
    width := s.width
    height := s.height
    fps := if s.frameRate.isValid then s.frameRate.toFloat else 0
    videoCodec := s.codec }

def withAudio (info : MediaInfo) (s : StreamInfo) : MediaInfo :=
  { info with audioCodec := s.codec, sampleRate := s.sampleRate, channels := s.channels }

def ofStreams (streams : List StreamInfo) (duration : Float) : MediaInfo :=
  let info := ((firstOf .video streams).elim { duration } (withVideo { duration }))
  (firstOf .audio streams).elim info info.withAudio

end MediaInfo
end Playhead
