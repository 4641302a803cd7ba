import Playhead.Decoder
import Playhead.Demuxer
/-!
# Session — one medium being played

A deck, the workers on it, and the driver, which shows pictures, asks for seeks and pauses.  A run of a session is any
sequence of `Move`s: single actions of the workers and of the audio consumer, and single critical sections of the
driver, in any order.  At the start each worker gets a thread (`launch`).  At the end the driver stops the workers
(`beginClose`), waits for them, and releases what they held.
-/
namespace Playhead

structure Session (C K D : Type) where
  deck : Deck
  master : MasterClock
  info : MediaInfo
  /-- The audio decoder, if audio is played. -/
  audio : Option D
  demuxer : Demuxer C
  /-- The decode worker, if video is played. -/
  decoder : Option (Decoder K)

inductive Move
  | demux
  | decode
  /-- The audio consumer comes for an item. -/
  | takeAudio
  /-- The driver shows what is due, by the reading that it took of the master clock. -/
  | refresh (master : Option Float)
  | requestSeek (target : Float)
  | setPaused (on : Bool)
  /-- The driver begins to end the session. -/
  | beginClose
deriving Repr

/-- What the system answers when a session asks for the threads of its workers: why there is none, if so. -/
structure Threads where
  decoder : Option String := none
  demuxer : Option String := none

namespace Session

variable {C K D : Type}

def withDeck (s : Session C K D) (f : Deck → Deck) : Session C K D := { s with deck := f s.deck }

def demux [Container C K] (now : Nat) (s : Session C K D) : Session C K D × Option Event :=
  let (deck, demuxer, e) := s.demuxer.step now s.deck
  ({ s with deck, demuxer }, e)

def decode [VideoCodec K] (s : Session C K D) : Session C K D × Option Event :=
  match s.decoder with
  | none => (s, none)
  | some w =>
    let (deck, w, e) := w.step s.deck
    ({ s with deck, decoder := some w }, e)

def takeAudio (s : Session C K D) : Taken × Session C K D :=
  let (taken, q) := s.deck.audioQueue.take s.deck.stop
  (taken, s.withDeck ({ · with audioQueue := q }))

/-- The reading of the master clock; none if the pictures are their own clock. -/
def masterReading [AudioDecoder D] (now : Nat) (s : Session C K D) : Option Float :=
  match s.master with
  | .video => none
  | .audio => some (s.audio.elim 0 AudioDecoder.clock)
  | .external => some (s.deck.clock.seconds now)

def refresh (master : Option Float) (s : Session C K D) : Option Picture × Session C K D :=
  let (picture, ring) := s.deck.ring.refresh master s.deck.config.threshold
  (picture, s.withDeck ({ · with ring }))

def goesOn (s : Session C K D) : Bool := !(s.deck.ended || s.deck.stop)

def setPaused [AudioDecoder D] (now : Nat) (on : Bool) (s : Session C K D) : Session C K D :=
  { s with
    deck := { s.deck with paused := on, clock := s.deck.clock.setPaused now on }
    audio := s.audio.map (AudioDecoder.setPaused · on) }

def beginClose (s : Session C K D) : Session C K D × List Event :=
  ({ s with deck := { s.deck with stop := true }.flushQueues, audio := none },
    if s.audio.isSome then [.audioReleased] else [])

def move [Container C K] [VideoCodec K] [AudioDecoder D] (now : Nat) (s : Session C K D) : Move → Session C K D
  | .demux => (s.demux now).1
  | .decode => s.decode.1
  | .takeAudio => s.takeAudio.2
  | .refresh master => if s.deck.paused then s else (s.refresh master).2
  | .requestSeek target => s.withDeck (·.requestSeek target)
  | .setPaused on => s.setPaused now on
  | .beginClose => s.beginClose.1

def run [Container C K] [VideoCodec K] [AudioDecoder D] (s : Session C K D) (moves : List (Nat × Move)) :
    Session C K D :=
  moves.foldl (fun s m => s.move m.1 m.2) s

/-! ## The end -/

def joinDemuxer [Container C K] (now : Nat) : (steps : Nat) → Session C K D → Session C K D × List Event
  | 0, s => (s, [])
  | steps + 1, s =>
    if s.demuxer.isGone then (s, [])
    else
      let (s, e) := s.demux now
      let (s, es) := joinDemuxer now steps s
      (s, e.toList ++ es)

def joinDecoder [VideoCodec K] : (steps : Nat) → Session C K D → Session C K D × List Event
  | 0, s => (s, [])
  | steps + 1, s =>
    if s.decoder.all (·.isGone) then (s, [])
    else
      let (s, e) := s.decode
      let (s, es) := joinDecoder steps s
      (s, e.toList ++ es)

/-- Releases the codec, then the container, then the buffers. -/
def finishClose (s : Session C K D) : Session C K D × List Event :=
  let ring := s.deck.ring.releaseImages
  let deck := { s.deck with videoQueue := s.deck.videoQueue.clear, audioQueue := s.deck.audioQueue.clear, ring }
  ({ s with deck },
    (if s.decoder.any (·.holds) then [.codecReleased] else []) ++
      (if s.demuxer.holds then [.containerReleased] else []))

def close [Container C K] [VideoCodec K] (now steps : Nat) (s : Session C K D) : Session C K D × List Event :=
  let (s, es₁) := s.beginClose
  let (s, es₂) := s.joinDemuxer now steps
  let (s, es₃) := s.joinDecoder steps
  let (s, es₄) := s.finishClose
  (s, es₁ ++ es₂ ++ es₃ ++ es₄)

/-! ## The start -/

/-- Starts the workers, the decode worker first.  A worker for which there is no thread lets its collaborator go, and
the session ends at once: the demuxer has not begun, and a decode worker that has is stopped. -/
def launch [Container C K] [VideoCodec K] (threads : Threads) (now steps : Nat) (s : Session C K D) :
    Except PlayError Unit × Session C K D × List Event :=
  match s.decoder.bind (fun w => threads.decoder.map (w, ·)), threads.demuxer with
  | some (w, reason), _ =>
    let decoder := some { w with point := .gone .died }
    let demuxer := { s.demuxer with point := .gone .finished }
    let (s, es) := { s with decoder, demuxer }.close now steps
    (.error (.worker ("无法启动视频解码线程: " ++ reason)), s, .codecReleased :: es)
  | none, some reason =>
    let demuxer := { s.demuxer with point := .gone .died }
    let (s, es) := { s with demuxer }.close now steps
    (.error (.worker ("无法启动解封装线程: " ++ reason)), s, .containerReleased :: es)
  | none, none => (.ok (), s, [])

end Session
end Playhead
