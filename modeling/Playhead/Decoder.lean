import Playhead.Deck
import Playhead.Event
/-!
# Decoder — the worker that turns video packets into pictures

A loop: take an item off the video queue, send it to the codec, and hand the frames that come out to the picture ring.
A marker starts a new timeline; frames before its time are received and thrown away.

`Decoder.step` is one action between two points at which another thread can come in.  Handing in a picture is three of
them: waiting for a slot, converting the frame, and the commit.
-/
namespace Playhead

inductive DecodePoint
  | take
  | flushCodec (start : Ticks)
  | resetRing (start : Ticks)
  | send (p : Packet)
  | receive
  | place (pts : Float)
  | convert (pts : Float)
  | commit (pts : Float)
  /-- The loop is left, and the other threads are about to be told. -/
  | leaving (how : Ending)
  | gone (how : Ending)

structure Decoder (K : Type) where
  codec : K
  stream : StreamInfo
  /-- The time that the next frame is expected at, in seconds. -/
  clock : Float := 0
  skipBefore : Option Float := none
  /-- The buffer that the next picture is painted into. -/
  spare : Image := {}
  point : DecodePoint := .take

namespace Decoder

variable {K : Type}

def new (d : Deck) (codec : K) : Except PlayError (Decoder K) :=
  match d.video with
  | none => .error (.worker "会话没有视频流")
  | some stream => .ok { codec, stream }

/-- A frame is at its own time, or where it is expected if it has none. -/
def timeOf (w : Decoder K) (f : FrameInfo) : Float := f.timestamp.elim w.clock w.stream.timeBase.seconds

/-- How long a frame stays: the nominal duration, and half of it for every repeat. -/
def delayOf (w : Decoder K) (f : FrameInfo) : Float :=
  let nominal := w.stream.frameDuration
  nominal + Float.ofInt f.repeats.toInt * (nominal * 0.5)

/-- How far before the time of a marker a frame still counts as being at it. -/
def tolerance : Float := 1e-6

def skips (w : Decoder K) (pts : Float) : Bool := w.skipBefore.any (fun t => pts + tolerance < t)

/-- Takes a frame into account: the expected time moves on, and with the first frame that is not skipped skipping is
over. -/
def advance (w : Decoder K) (f : FrameInfo) : Decoder K :=
  let pts := w.timeOf f
  let w := { w with clock := pts + w.delayOf f }
  if w.skips pts then { w with point := .receive } else { w with skipBefore := none, point := .place pts }

def step [VideoCodec K] (d : Deck) (w : Decoder K) : Deck × Decoder K × Option Event :=
  let goto (p : DecodePoint) : Deck × Decoder K × Option Event := (d, { w with point := p }, none)
  match w.point with
  | .take =>
    let (taken, q) := d.videoQueue.take d.stop
    let d := { d with videoQueue := q }
    match taken with
    | .item (.packet p) => (d, { w with point := .send p }, none)
    | .item (.marker start) => (d, { w with point := .flushCodec start }, none)
    | .flushed | .stopped => (d, { w with point := .leaving .finished }, none)
    | .nothing => (d, w, none)
  | .flushCodec start =>
    match VideoCodec.flush w.codec with
    | none => goto (.leaving .died)
    | some k => (d, { w with codec := k, point := .resetRing start }, none)
  | .resetRing start =>
    let secs := w.stream.timeBase.seconds start
    ({ d with ring := d.ring.reset secs }, { w with clock := secs, skipBefore := some secs, point := .take }, none)
  | .send p =>
    match VideoCodec.send w.codec p with
    | (.ok (), k) => (d, { w with codec := k, point := .receive }, none)
    | (.error e, k) => (d, { w with codec := k, point := .leaving (.failed e) }, none)
    | (.died, k) => (d, { w with codec := k, point := .leaving .died }, none)
  | .receive =>
    match VideoCodec.receive w.codec with
    | (.ok (some f), k) => (d, { w with codec := k }.advance f, none)
    | (.ok none, k) => (d, { w with codec := k, point := .take }, none)
    | (.error e, k) => (d, { w with codec := k, point := .leaving (.failed e) }, none)
    | (.died, k) => (d, { w with codec := k, point := .leaving .died }, none)
  | .place pts =>
    match d.ring.slotFor d.stop with
    | .free => goto (.convert pts)
    | .wait => (d, w, none)
    | .stopped => goto (.leaving .finished)
  | .convert pts =>
    match VideoCodec.convert w.codec w.spare with
    | (.ok (), image, k) => (d, { w with codec := k, spare := image, point := .commit pts }, none)
    | (.error e, image, k) => (d, { w with codec := k, spare := image, point := .leaving (.failed e) }, none)
    | (.died, image, k) => (d, { w with codec := k, spare := image, point := .leaving .died }, none)
  | .commit pts =>
    let (ring, spare) := d.ring.commit pts w.spare
    ({ d with ring }, { w with spare, point := .receive }, none)
  | .leaving how =>
    ({ d with stop := true }, { w with point := .gone how }, if how = .died then some .codecReleased else none)
  | .gone _ => goto w.point

/-- Only another thread can get the worker on: it waits for an item, having said so, or for a slot. -/
def isWaiting (d : Deck) (w : Decoder K) : Bool :=
  match w.point with
  | .take => d.videoQueue.blocks d.stop && !d.videoQueue.busy
  | .place _ => decide (d.ring.slotFor d.stop = .wait)
  | _ => false

def ending? (w : Decoder K) : Option Ending :=
  match w.point with
  | .leaving how | .gone how => some how
  | _ => none

def isGone (w : Decoder K) : Bool :=
  match w.point with
  | .gone _ => true
  | _ => false

/-- A worker that died has let its codec go; otherwise whoever waits for the worker gets it back. -/
def holds (w : Decoder K) : Bool :=
  match w.point with
  | .gone .died => false
  | _ => true

end Decoder
end Playhead
