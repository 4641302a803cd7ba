import Playhead.Decoder
import Playhead.Demuxer
import Playhead.Script.Codec
/-!
# Bench — the two loops stepped by hand

Demuxer and decode worker on one deck, with nobody else there.  Both queues are flushing, so that a worker that would
wait for an item comes to its end instead, and is started again with the next step.  A picture for which there is no
slot makes the decode worker stop, and is lost.
-/
namespace Playhead

structure Bench (C K : Type) where
  deck : Deck
  demuxer : Demuxer C
  decoder : Option (Decoder K)
  /-- Where the container was asked to seek to, latest first. -/
  seeks : List Ticks := []
  heard : List CodecEvent := []

/-- What one pass of the demux loop came to: nothing was read, or a read with its result. -/
abbrev PassResult := Option (Outcome (Option Packet))

/-- What decoding until the queue is empty came to. -/
inductive DecodeResult
  | noWorker
  | failed (e : PlayError)
  | died
  /-- The stop flag at the end, and the passes of the demux loop that happened meanwhile. -/
  | done (stopped : Bool) (meanwhile : List PassResult)

namespace Bench

variable {C K : Type}

def new (config : Config) (container : C) (video audio : Option StreamInfo) (duration : Float) : Bench C K :=
  let deck := (Deck.new config video audio duration 0).flushQueues
  { deck := { deck with clock := (deck.clock.set 0 0).setPaused 0 true }, demuxer := { container }, decoder := none }

def openDecoder [Container C K] (b : Bench C K) (stream : Nat) : Except PlayError (Decoder K) :=
  (Container.openCodec b.demuxer.container stream).bind (Decoder.new b.deck)

def passResult (es : List Event) : PassResult :=
  es.findSome? (fun e => match e with
    | .read r => some r
    | _ => none)

def soughtIn (es : List Event) : List Ticks :=
  es.filterMap (fun e => match e with
    | .sought us => some us
    | _ => none)

def pass [Container C K] (b : Bench C K) : PassResult × Bench C K :=
  if b.deck.stop || (b.deck.video.isNone && b.deck.audio.isNone) then (none, b)
  else
    let (deck, demuxer, es) := { b.demuxer with point := .top }.turn 0 b.deck
    (passResult es, { b with deck, demuxer, seeks := (soughtIn es).reverse ++ b.seeks })

def passes [Container C K] : (count : Nat) → Bench C K → List PassResult × Bench C K
  | 0, b => ([], b)
  | count + 1, b =>
    let (r, b) := b.pass
    let (rs, b) := passes count b
    (r :: rs, b)

/-- A frame that is received is a frame that needs a slot.  If there is none, the worker is told to stop. -/
def deliver [VideoCodec K] (w : Decoder K) (d : Deck) : Deck :=
  match VideoCodec.receive w.codec with
  | (.ok (some _), _) => if d.ring.isFull then { d with stop := true } else d
  | _ => d

/-- What the cue of the next frame asks for.  Only the first seek of a run is done; the demux loop makes one pass for
it, as if nobody had said stop. -/
def followCue [Container C K] (cue : Script.Cue) (b : Bench C K) (sought : Bool) :
    List PassResult × Bench C K × Bool :=
  let b := if cue.stop then { b with deck := { b.deck with stop := true } } else b
  match cue.seek, sought with
  | some target, false =>
    let stop := b.deck.stop
    let (r, b) := { b with deck := { b.deck with stop := false }.requestSeek target }.pass
    ([r], { b with deck := { b.deck with stop } }, true)
  | _, _ => ([], b, sought)

def decodeOn [Container C K] [VideoCodec K] (cueOf : K → Script.Cue) :
    (steps : Nat) → Decoder K → Bench C K → (sought : Bool) → Decoder K × Bench C K × List PassResult
  | 0, w, b, _ => (w, b, [])
  | steps + 1, w, b, sought =>
    match w.point with
    | .leaving _ | .gone _ => (w, b, [])
    | .receive =>
      let (rs, b, sought) := followCue (cueOf w.codec) b sought
      let (deck, w, _) := w.step (deliver w b.deck)
      let (w, b, rs') := decodeOn cueOf steps w { b with deck } sought
      (w, b, rs ++ rs')
    | _ =>
      let (deck, w, _) := w.step b.deck
      decodeOn cueOf steps w { b with deck } sought

def decodeSteps : Nat := 100000000

def decode [Container C K] [VideoCodec K] (cueOf : K → Script.Cue) (b : Bench C K) : DecodeResult × Bench C K :=
  match b.decoder with
  | none => (.noWorker, b)
  | some w =>
    let stop := b.deck.stop
    let (w, b, rs) := decodeOn cueOf decodeSteps { w with point := .take } b false
    let b := { b with heard := VideoCodec.events w.codec }
    match w.ending? with
    | some (.failed e) => (.failed e, { b with decoder := none, deck := { b.deck with stop := true } })
    | some .died => (.died, { b with decoder := none, deck := { b.deck with stop := true } })
    | _ => (.done b.deck.stop rs, { b with decoder := some w, deck := { b.deck with stop } })

def withDeck (b : Bench C K) (f : Deck → Deck) : Bench C K := { b with deck := f b.deck }

def takeAudio (b : Bench C K) : Taken × Bench C K :=
  let (taken, q) := b.deck.audioQueue.take b.deck.stop
  (taken, b.withDeck ({ · with audioQueue := q }))

def refresh (b : Bench C K) (master : Option Float) : Option Picture × Bench C K :=
  let (picture, ring) := b.deck.ring.refresh master b.deck.config.threshold
  (picture, b.withDeck ({ · with ring }))

end Bench
end Playhead
