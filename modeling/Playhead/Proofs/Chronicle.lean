import Playhead.Proofs.Untouched
/-!
# Chronicle — what happens in a run, in order

`Session.run` gives the session that a run of moves ends in.  `Session.chronicle` is the list of what happened on the
way: what was asked for, what the demuxer read and routed, when a seek cleared a queue or shut the ring, what the
consumers got, which pictures left the ring.  The laws of a run speak about its chronicle and the session at its end;
all of them are proved move by move (`Session.run_keeps`).
-/
namespace Playhead

/-- The two packet queues of a session. -/
inductive Lane
  | video | audio
deriving DecidableEq, Repr

namespace Deck

def queue (d : Deck) : Lane → PacketQueue
  | .video => d.videoQueue
  | .audio => d.audioQueue

def stream? (d : Deck) : Lane → Option StreamInfo
  | .video => d.video
  | .audio => d.audio

/-- The queue of the stream that a packet belongs to; none if the stream is not played. -/
def laneOf (d : Deck) (p : Packet) : Option Lane :=
  if d.video.map (·.index) = some p.stream then some .video
  else if d.audio.map (·.index) = some p.stream then some .audio
  else none

theorem queue_route (d : Deck) (p : Packet) (lane : Lane) :
    (d.route p).queue lane = if d.laneOf p = some lane then (d.queue lane).put (.packet p) else d.queue lane := by
  unfold route laneOf
  split
  · cases lane <;> simp [queue]
  · split <;> cases lane <;> simp [queue]

end Deck

inductive Note
  | requested (target : Float)
  /-- The demuxer looked for a request and found this target. -/
  | found (target : Float)
  /-- The demuxer set about a seek to this target. -/
  | applied (target : Float)
  /-- The container went to a position. -/
  | sought (us : Ticks)
  | cleared (lane : Lane)
  /-- A seek cleared the ring and shut it. -/
  | shut (us : Ticks)
  | read (result : Outcome (Option Packet))
  /-- A packet was sent on to the queue of its stream, if that is played. -/
  | routed (p : Packet)
  | put (lane : Lane) (i : QueueItem)
  | took (lane : Lane) (i : QueueItem)
  | left (pictures : List Picture)

def Demuxer.notes {C K : Type} [Container C K] (d : Deck) (w : Demuxer C) : List Note :=
  match w.point with
  | .poll => d.pendingSeek.toList.map .found
  | .seek target =>
    .applied target :: (match (Container.seek w.container (seekMicros target)).1 with
      | .ok () => [.sought (seekMicros target)]
      | _ => [])
  | .apply _ _ .clearAudio => [.cleared .audio]
  | .apply _ us .markAudio => d.audio.toList.map (fun s => .put .audio (SeekStage.marker s us))
  | .apply _ _ .clearVideo => [.cleared .video]
  | .apply _ us .holdRing => [.shut us]
  | .apply _ us .markVideo => d.video.toList.map (fun s => .put .video (SeekStage.marker s us))
  | .read => [.read (Container.read w.container).1]
  | .route p => .routed p :: (d.laneOf p).toList.map (fun lane => .put lane (.packet p))
  | _ => []

def Taken.notes (lane : Lane) : Taken → List Note
  | .item i => [.took lane i]
  | _ => []

def Decoder.notes {K : Type} [VideoCodec K] (d : Deck) (w : Decoder K) : List Note :=
  match w.point with
  | .take => (d.videoQueue.take d.stop).1.notes .video
  | _ => []

namespace Session

variable {C K D : Type} [Container C K] [VideoCodec K] [AudioDecoder D]

def notes (s : Session C K D) : Move → List Note
  | .demux => s.demuxer.notes s.deck
  | .decode => s.decoder.elim [] (·.notes s.deck)
  | .takeAudio => s.takeAudio.1.notes .audio
  | .refresh master => if s.deck.paused then [] else [.left (s.deck.ring.outgoing master s.deck.config.threshold)]
  | .requestSeek target => [.requested target]
  | .setPaused _ | .beginClose => []

def chronicle (s : Session C K D) : List (Nat × Move) → List Note
  | [] => []
  | m :: moves => s.notes m.2 ++ (s.move m.1 m.2).chronicle moves

@[simp] theorem run_nil (s : Session C K D) : s.run [] = s := rfl

@[simp] theorem run_cons (s : Session C K D) (m : Nat × Move) (moves : List (Nat × Move)) :
    s.run (m :: moves) = (s.move m.1 m.2).run moves := rfl

theorem run_append (s : Session C K D) (moves moves' : List (Nat × Move)) :
    s.run (moves ++ moves') = (s.run moves).run moves' := List.foldl_append

/-- **What every move keeps, a run keeps**, together with its chronicle. -/
theorem run_keeps {P : Session C K D → List Note → Prop}
    (keep : ∀ s notes now m, P s notes → P (s.move now m) (notes ++ s.notes m))
    (s : Session C K D) (before : List Note) (start : P s before) (moves : List (Nat × Move)) :
    P (s.run moves) (before ++ s.chronicle moves) := by
  induction moves generalizing s before with
  | nil => simpa [chronicle] using start
  | cons m moves ih =>
    have h := ih _ _ (keep s before m.1 m.2 start)
    rw [List.append_assoc] at h
    exact h

end Session

/-- A host that makes no audio decoders. -/
instance : AudioDecoder Empty := ⟨nofun, nofun⟩

end Playhead
