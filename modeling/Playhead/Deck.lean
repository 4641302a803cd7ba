import Playhead.Clock
import Playhead.Config
import Playhead.PacketQueue
import Playhead.PictureRing
import Playhead.Stream
/-!
# Deck — what the threads of a session share

The two packet queues, the picture ring, the wall clock, the flags and the seek request.  Each function here is one
critical section, or the change of one flag.
-/
namespace Playhead

structure Deck where
  config : Config
  video : Option StreamInfo := none
  audio : Option StreamInfo := none
  duration : Float := 0
  /-- The session is coming to its end.  The flag is never taken back. -/
  stop : Bool := false
  paused : Bool := false
  ended : Bool := false
  /-- The target of the seek that was asked for last and is not done yet. -/
  pendingSeek : Option Float := none
  videoQueue : PacketQueue := {}
  audioQueue : PacketQueue := {}
  ring : PictureRing
  clock : Clock
deriving Inhabited

/-- A seek goes to a time of the medium: not before its start, and not behind its end if the duration is known.  What
is no time is the start. -/
def clampTarget (time duration : Float) : Float :=
  let time := if 0 < time then time else 0
  if 0 < duration ∧ duration < time then duration else time

namespace Deck

def new (config : Config) (video audio : Option StreamInfo) (duration : Float) (now : Nat) : Deck :=
  { config, video, audio, duration, ring := .new config.pictureCapacity, clock := .start now }

/-- Asks for a seek; an earlier request that is not done yet is forgotten, and the end is no longer the end. -/
def requestSeek (d : Deck) (target : Float) : Deck := { d with pendingSeek := some target, ended := false }

/-- A seek to `target` is done.  A request for another target that came in the meantime stays. -/
def completeSeek (d : Deck) (target : Float) : Deck :=
  if d.pendingSeek == some target then { d with pendingSeek := none } else d

/-- The medium has ended, unless a seek is asked for; tells whether this is news. -/
def markEnded (d : Deck) : Bool × Deck :=
  if d.pendingSeek.isSome then (false, d) else (!d.ended, { d with ended := true })

def isDrained (d : Deck) : Bool := d.videoQueue.isIdle && d.audioQueue.isIdle && d.ring.isEmpty

def route (d : Deck) (p : Packet) : Deck :=
  if d.video.map (·.index) = some p.stream then { d with videoQueue := d.videoQueue.put (.packet p) }
  else if d.audio.map (·.index) = some p.stream then { d with audioQueue := d.audioQueue.put (.packet p) }
  else d

/-- The demuxer may read while the queue of a stream that is played has room. -/
def audioHasRoom (d : Deck) : Bool := d.audio.isNone || d.audioQueue.hasRoom d.config.audioQueueLimit

def videoHasRoom (d : Deck) : Bool := d.video.isNone || d.videoQueue.hasRoom d.config.videoQueueLimit

def flushQueues (d : Deck) : Deck :=
  { d with videoQueue := d.videoQueue.flush, audioQueue := d.audioQueue.flush }

end Deck
end Playhead
