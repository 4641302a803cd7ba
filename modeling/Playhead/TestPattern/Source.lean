import Playhead.Number.Decimal
import Playhead.TestPattern.Codec
/-!
# Source — the test pattern, a container that needs no file

At a fixed frame rate there is a video packet for every frame, and behind it, if there is audio, an audio packet for
the same moment.  A source can be told to fail one read, to refuse seeks, and to cut one video packet short.
-/
namespace Playhead
namespace TestPattern

structure Source where
  duration : Float
  fps : Nat
  width : Nat := 16
  height : Nat := 8
  packetSize : Nat := 1024
  hasVideo : Bool := true
  hasAudio : Bool := false
  failingSeek : Bool := false
  /-- The read that fails, counted from zero. -/
  failingRead : Option Nat := none
  corruptFrame : Option Nat := none
  reads : Nat := 0
  position : Nat := 0
  /-- A video packet was read, and the audio packet of the same moment was not. -/
  audioOwed : Bool := false
deriving Repr, Inhabited

namespace Source

/-- A source of 16 by 8 pictures; a rate of zero is taken as one. -/
def new (duration : Float) (fps : Nat) : Source := { duration, fps := max fps 1 }

def withSize (s : Source) (width height : Nat) : Source := { s with width, height }

def withAudio (s : Source) : Source := { s with hasAudio := true }

def withoutVideo (s : Source) : Source := { s with hasVideo := false }

def withPacketSize (s : Source) (size : Nat) : Source := { s with packetSize := max size 8 }

def withFailingSeek (s : Source) : Source := { s with failingSeek := true }

def withFailingRead (s : Source) (n : Nat) : Source := { s with failingRead := some n }

def withCorruptFrame (s : Source) (frame : Nat) : Source := { s with corruptFrame := some frame }

def frameCount (s : Source) : Nat := Number.toNearestNat (s.duration * s.fps.toFloat)

def videoIndex? (s : Source) : Option Nat := if s.hasVideo then some 0 else none

def audioIndex? (s : Source) : Option Nat :=
  if s.hasAudio then some (if s.hasVideo then 1 else 0) else none

def rate (s : Source) : Int32 := Int32.ofNat s.fps

def videoStream (s : Source) : StreamInfo where
  kind := .video
  timeBase := ⟨1, s.rate⟩
  frameRate := ⟨s.rate, 1⟩
  codec := "testsrc"
  width := s.width
  height := s.height

def audioStream (index : Nat) : StreamInfo where
  index := index
  kind := .audio
  timeBase := ⟨1, 1000⟩
  codec := "pcm_s16le"
  sampleRate := 48000
  channels := 2

def streams (s : Source) : List StreamInfo :=
  (if s.hasVideo then [s.videoStream] else []) ++ s.audioIndex?.toList.map audioStream

def videoPacket (s : Source) (stream frame : Nat) : Packet :=
  let data := (Bytes.littleEndian 8 frame).toByteArray ++ Bytes.zeros (s.packetSize - 8)
  { stream
    pts := some (Int64.ofNat frame)
    dts := some (Int64.ofNat frame)
    duration := 1
    data := if s.corruptFrame = some frame then data.extract 0 4 else data }

def audioPacket (s : Source) (stream frame : Nat) : Packet :=
  let pts := Int64.ofNat frame * 1000 / Int64.ofNat s.fps
  { stream
    pts := some pts
    dts := some pts
    duration := Int64.ofNat (1000 / s.fps)
    data := Bytes.zeros 256 }

def atPosition (s : Source) : Option Packet × Source :=
  if s.frameCount ≤ s.position then (none, s)
  else
    let s' := { s with position := s.position + 1 }
    match s.videoIndex?, s.audioIndex? with
    | some video, audio => (some (s.videoPacket video s.position), { s' with audioOwed := audio.isSome })
    | none, some audio => (some (s.audioPacket audio s.position), s')
    | none, none => (none, s')

def advance (s : Source) : Option Packet × Source :=
  if s.audioOwed then
    let s := { s with audioOwed := false }
    match s.audioIndex? with
    | some audio => (some (s.audioPacket audio (s.position - 1)), s)
    | none => s.atPosition
  else s.atPosition

/-- A read fails if it is the one that was told to; a failing read takes nothing away. -/
def read (s : Source) : Outcome (Option Packet) × Source :=
  let s' := { s with reads := s.reads + 1 }
  if s.failingRead = some s.reads then (.error (.io (.other "测试图样模拟读取失败")), s')
  else
    let (p, s') := s'.advance
    (.ok p, s')

def atEnd (s : Source) : Bool :=
  !(s.audioOwed && s.hasAudio) && (s.streams.isEmpty || decide (s.frameCount ≤ s.position))

/-- The frame at a time in microseconds, rounded down and cut to 64 bits. -/
def frameAt (s : Source) (us : Ticks) : Nat := us.toInt.toNat * s.fps / 1000000 % Nat.pow 2 64

/-- Goes to the frame at the time, or behind the last frame. -/
def seek (s : Source) (us : Ticks) : Outcome Unit × Source :=
  if s.failingSeek then (.error (.io (.other "测试图样不支持 seek")), s)
  else (.ok (), { s with position := min (s.frameAt us) s.frameCount, audioOwed := false })

def openCodec (s : Source) (stream : Nat) : Except PlayError Codec :=
  if s.videoIndex? = some stream then .ok { width := s.width, height := s.height }
  else .error (.unsupportedCodec s!"流 #{stream} 不是视频流")

def description (s : Source) : String :=
  s!"testsrc {s.width}x{s.height} @ {s.fps}fps, {Number.fixed 2 s.duration}s" ++ (if s.hasAudio then " + audio" else "")

end Source

instance : Container Source Codec where
  streams := Source.streams
  duration := Source.duration
  description := Source.description
  read := Source.read
  atEnd := Source.atEnd
  seek := Source.seek
  openCodec := Source.openCodec

end TestPattern
end Playhead
