import Playhead.PlaybackState
import Playhead.Session
/-!
# Player — what a host program drives

A player plays one medium at a time.  The host gives it collaborators at the start, opens media, calls `Player.update`
again and again, and may seek and pause in between; nothing of this waits.  Every operation also lists what the
collaborators notice of it.
-/
namespace Playhead

/-- What a host gives a player: settings, a way to open media, a way to make audio decoders, and a place to show
pictures. -/
structure Host (C D : Type) where
  config : Config := {}
  opener : Option (String → Except PlayError C) := none
  makeAudio : Option (StreamInfo → Except PlayError D) := none
  hasSink : Bool := false

structure Player (C K D : Type) where
  host : Host C D
  session : Option (Session C K D) := none
  state : PlaybackState := .uninitialized

structure BufferStatus where
  videoPackets : Nat := 0
  videoBytes : Nat := 0
  audioPackets : Nat := 0
  audioBytes : Nat := 0
  pictures : Nat := 0
deriving DecidableEq, Repr, Inhabited

namespace Player

variable {C K D : Type}

/-- Enough for a worker that was told to stop. -/
def joinSteps : Nat := 100000

def close [Container C K] [VideoCodec K] (now : Nat) (p : Player C K D) : Player C K D × List Event :=
  match p.session with
  | none => (p, [])
  | some s =>
    ({ p with session := none, state := .closed },
      (s.close now joinSteps).2 ++ (if p.host.hasSink then [.sinkReleased] else []))

def openAudio (host : Host C D) (streams : List StreamInfo) : Option (StreamInfo × D) × List Event :=
  match firstOf .audio streams, host.makeAudio with
  | some stream, some make =>
    match make stream with
    | .ok decoder => (some (stream, decoder), [.audioRequested stream])
    | .error _ => (none, [.audioRequested stream])
  | _, _ => (none, [])

def openVideo [Container C K] (container : C) : Option (StreamInfo × K) :=
  match firstOf .video (Container.streams container) with
  | none => none
  | some stream =>
    match Container.openCodec container stream.index with
    | .ok codec => some (stream, codec)
    | .error _ => none

def sessionOf [Container C K] (now : Nat) (config : Config) (container : C) (audio : Option (StreamInfo × D))
    (video : Option (StreamInfo × K)) : Session C K D :=
  let duration := Container.duration container
  let deck := Deck.new config (video.map (·.1)) (audio.map (·.1)) duration now
  { deck := { deck with clock := deck.clock.set now 0 }
    master := .select config.sync video.isSome audio.isSome
    info := Container.mediaInfo container
    audio := audio.map (·.2)
    demuxer := { container }
    decoder := video.map (fun (stream, codec) => { codec, stream }) }

/-- Plays an open container.  What was played before is ended first, even if the new medium can not be played. -/
def attachOn [Container C K] [VideoCodec K] (threads : Threads) (now : Nat) (container : C) (p : Player C K D) :
    Except PlayError Unit × Player C K D × List Event :=
  let (p, es) := p.close now
  match p.host.config.validate with
  | .error e => (.error e, p, es ++ [.containerReleased])
  | .ok () =>
    let (audio, es') := openAudio p.host (Container.streams container)
    let video := openVideo container
    if video.isNone && audio.isNone then (.error .noStreams, p, es ++ es' ++ [.containerReleased])
    else
      match (sessionOf now p.host.config container audio video).launch threads now joinSteps with
      | (.error e, _, es'') => (.error e, p, es ++ es' ++ es'')
      | (.ok (), s, es'') => (.ok (), { p with session := some s, state := .opened }, es ++ es' ++ es'')

def attach [Container C K] [VideoCodec K] (now : Nat) (container : C) (p : Player C K D) :
    Except PlayError Unit × Player C K D × List Event :=
  p.attachOn {} now container

def openMedium (name : String) (p : Player C K D) : Except PlayError C :=
  match p.host.opener with
  | none => .error (.cannotOpen (name ++ ": 没有可用的容器解析器"))
  | some opener => opener name

/-- Opens a medium and plays it.  If it can not be opened, what is played goes on. -/
def initOn [Container C K] [VideoCodec K] (threads : Threads) (now : Nat) (name : String) (p : Player C K D) :
    Except PlayError Unit × Player C K D × List Event :=
  match p.openMedium name with
  | .error e => (.error e, p, [])
  | .ok container => p.attachOn threads now container

structure Shown where
  goesOn : Bool := false
  /-- The picture that was taken and handed to the sink. -/
  picture : Option Picture := none

/-- Shows what is due.  Pictures without pixels, and all pictures of a host without a sink, are taken unseen. -/
def update [AudioDecoder D] (now : Nat) (p : Player C K D) : Shown × Player C K D :=
  match p.session with
  | none => ({}, p)
  | some s =>
    let state := if p.state = .opened then .playing else p.state
    let (picture, s) := if s.deck.paused then (none, s) else s.refresh (s.masterReading now)
    ({ goesOn := s.goesOn, picture := picture.filter (fun x => p.host.hasSink && x.image.isAllocated) },
      { p with session := some s, state })

def seekTo (time : Float) (p : Player C K D) : Player C K D :=
  { p with session := p.session.map (fun s => s.withDeck (fun d => d.requestSeek (clampTarget time d.duration))) }

def setPaused [AudioDecoder D] (now : Nat) (on : Bool) (p : Player C K D) : Player C K D × List Event :=
  match p.session with
  | none => (p, [])
  | some s =>
    ({ p with session := some (s.setPaused now on), state := if on then .paused else .playing },
      if s.audio.isSome then [.audioPaused on] else [])

def duration (p : Player C K D) : Float := p.session.elim 0 (·.deck.duration)

/-- Where the medium stands: the time of the picture that was taken last. -/
def position (p : Player C K D) : Float := p.session.elim 0 (·.deck.ring.lastPts)

def master? (p : Player C K D) : Option MasterClock := p.session.map (·.master)

def mediaInfo? (p : Player C K D) : Option MediaInfo := p.session.map (·.info)

def isSeekPending (p : Player C K D) : Bool := p.session.any (·.deck.pendingSeek.isSome)

def isEnded (p : Player C K D) : Bool := p.session.any (·.deck.ended)

def buffers (p : Player C K D) : BufferStatus :=
  match p.session with
  | none => {}
  | some s =>
    { videoPackets := s.deck.videoQueue.length
      videoBytes := s.deck.videoQueue.bytes
      audioPackets := s.deck.audioQueue.length
      audioBytes := s.deck.audioQueue.bytes
      pictures := s.deck.ring.size }

end Player
end Playhead
