import Playhead.Deck
import Playhead.Event
/-!
# Demuxer — the worker that reads the container

A loop: do the seek that is asked for, wait while a queue is over its limit, read a packet and put it on the queue of
its stream.  When a read gives nothing and nothing is left to show, the medium has ended; the loop goes on reading, for
a seek may still come.

`Demuxer.step` is one action between two points at which another thread can come in; `Demuxer.turn` is one pass of the
loop with nothing in between.
-/
namespace Playhead

/-- The actions of a successful seek, in their order. -/
inductive SeekStage
  | clearAudio | markAudio | clearVideo | holdRing | markVideo | clearRing | setClock | unsetEnded
deriving DecidableEq, Repr

inductive DemuxPoint
  | start
  | top
  | poll
  | seek (target : Float)
  | apply (target : Float) (us : Ticks) (stage : SeekStage)
  | retire (target : Float)
  | audioRoom
  | videoRoom
  | read
  | arrived (p : Packet)
  | route (p : Packet)
  | videoIdle
  | audioIdle
  | ringEmpty
  | markEnded
  /-- The loop is left, and the other threads are about to be told. -/
  | leaving (how : Ending)
  | gone (how : Ending)
deriving DecidableEq

/-- The loop is entered if there is anything to play. -/
def DemuxPoint.entry (d : Deck) : DemuxPoint :=
  if d.video.isNone && d.audio.isNone then .leaving (.failed .noStreams) else .top

def DemuxPoint.isRest : DemuxPoint → Bool
  | .top | .leaving _ | .gone _ => true
  | _ => false

/-- A target in microseconds, toward zero and into the signed 64-bit range. -/
def seekMicros (target : Float) : Ticks := Number.toInt64 (target * 1000000)

namespace SeekStage

/-- Streams that are not played have nothing to be cleared. -/
def first (d : Deck) : SeekStage :=
  if d.audio.isSome then .clearAudio else if d.video.isSome then .clearVideo else .clearRing

def next (d : Deck) : SeekStage → Option SeekStage
  | .clearAudio => some .markAudio
  | .markAudio => some (if d.video.isSome then .clearVideo else .clearRing)
  | .clearVideo => some .holdRing
  | .holdRing => some .markVideo
  | .markVideo => some .setClock
  | .clearRing => some .setClock
  | .setClock => some .unsetEnded
  | .unsetEnded => none

def marker (stream : StreamInfo) (us : Ticks) : QueueItem := .marker (stream.timeBase.rescale us .micros)

/-- The ring is shut before the marker is put, so that no picture of the old timeline gets in until the decoder has come
to the marker. -/
def act (stage : SeekStage) (now : Nat) (us : Ticks) (d : Deck) : Deck :=
  match stage with
  | .clearAudio => { d with audioQueue := d.audioQueue.clear }
  | .markAudio => d.audio.elim d (fun s => { d with audioQueue := d.audioQueue.put (marker s us) })
  | .clearVideo => { d with videoQueue := d.videoQueue.clear }
  | .holdRing => { d with ring := d.ring.clear true }
  | .markVideo => d.video.elim d (fun s => { d with videoQueue := d.videoQueue.put (marker s us) })
  | .clearRing => { d with ring := d.ring.clear false }
  | .setClock => { d with clock := d.clock.set now us.toInt.toNat }
  | .unsetEnded => { d with ended := false }

end SeekStage

structure Demuxer (C : Type) where
  container : C
  point : DemuxPoint := .start

namespace Demuxer

variable {C K : Type}

def step [Container C K] (now : Nat) (d : Deck) (w : Demuxer C) : Deck × Demuxer C × Option Event :=
  let goto (p : DemuxPoint) : Deck × Demuxer C × Option Event := (d, { w with point := p }, none)
  let after (d : Deck) (p : DemuxPoint) : Deck × Demuxer C × Option Event := (d, { w with point := p }, none)
  match w.point with
  | .start => goto (.entry d)
  | .top => goto (if d.stop then .leaving .finished else .poll)
  | .poll => goto (d.pendingSeek.elim .audioRoom .seek)
  | .seek target =>
    let us := seekMicros target
    match Container.seek w.container us with
    | (.ok (), c) => (d, ⟨c, .apply target us (.first d)⟩, some (.sought us))
    | (.error _, c) => (d, ⟨c, .retire target⟩, some (.sought us))
    | (.died, c) => (d, ⟨c, .leaving .died⟩, some (.sought us))
  | .apply target us stage => after (stage.act now us d) ((stage.next d).elim (.retire target) (.apply target us))
  | .retire target => after (d.completeSeek target) .audioRoom
  | .audioRoom => goto (if d.audioHasRoom then .videoRoom else .top)
  | .videoRoom => goto (if d.videoHasRoom then .read else .top)
  | .read =>
    match Container.read w.container with
    | (.ok (some p), c) => (d, ⟨c, .arrived p⟩, some (.read (.ok (some p))))
    | (.died, c) => (d, ⟨c, .leaving .died⟩, some (.read .died))
    | (r, c) => (d, ⟨c, .videoIdle⟩, some (.read r))
  | .arrived p => after { d with ended := false } (.route p)
  | .route p => after (d.route p) .top
  | .videoIdle => goto (if d.videoQueue.isIdle then .audioIdle else .top)
  | .audioIdle => goto (if d.audioQueue.isIdle then .ringEmpty else .top)
  | .ringEmpty => goto (if d.ring.isEmpty then .markEnded else .top)
  | .markEnded => after d.markEnded.2 .top
  | .leaving how =>
    ({ d with stop := true }, { w with point := .gone how }, if how = .died then some .containerReleased else none)
  | .gone _ => goto w.point

def toRest [Container C K] (now : Nat) : (steps : Nat) → Deck → Demuxer C → Deck × Demuxer C × List Event
  | 0, d, w => (d, w, [])
  | steps + 1, d, w =>
    if w.point.isRest then (d, w, [])
    else
      let (d, w, e) := w.step now d
      let (d, w, es) := toRest now steps d w
      (d, w, e.toList ++ es)

/-- More steps than one pass of the loop has. -/
def passBound : Nat := 24

def entered (d : Deck) (w : Demuxer C) : Demuxer C :=
  match w.point with
  | .start => { w with point := .entry d }
  | _ => w

/-- One pass of the loop: a step away from the rest, and on to the next one. -/
def turn [Container C K] (now : Nat) (d : Deck) (w : Demuxer C) : Deck × Demuxer C × List Event :=
  let (d, w, e) := (w.entered d).step now d
  let (d, w, es) := w.toRest now passBound d
  (d, w, e.toList ++ es)

def isGone (w : Demuxer C) : Bool :=
  match w.point with
  | .gone _ => true
  | _ => false

/-- A worker that died has let its container go; otherwise whoever waits for the worker gets it back. -/
def holds (w : Demuxer C) : Bool :=
  match w.point with
  | .gone .died => false
  | _ => true

end Demuxer
end Playhead
