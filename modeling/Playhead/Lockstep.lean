import Playhead.Player
/-!
# Lockstep — a player without threads

The host and the workers of a player take turns, and time passes only between two updates.  A round lets the demuxer
read until a read gives nothing or a queue is over its limit, and the decode worker decode until it has to wait.  A
player is at rest when a round moves nothing and the container has no more packets to give.
-/
namespace Playhead

structure Lockstep (C K D : Type) where
  player : Player C K D
  /-- Nanoseconds. -/
  now : Nat := 0
  /-- What the collaborators have noticed, latest first; reads are not kept. -/
  noticed : List Event := []
  /-- What reached the codecs of the sessions that are over. -/
  heardBefore : List CodecEvent := []
  /-- The deck whose audio was handed out last, once its session is over. -/
  audioDeck : Option Deck := none

namespace Lockstep

variable {C K D : Type}

def withSession (l : Lockstep C K D) (s : Session C K D) : Lockstep C K D :=
  { l with player := { l.player with session := some s } }

def isRead : Event → Bool
  | .read _ => true
  | _ => false

def note (es : List Event) (before : List Event) : List Event :=
  es.foldl (fun noticed e => if isRead e then noticed else e :: noticed) before

def notice (l : Lockstep C K D) (es : List Event) : Lockstep C K D := { l with noticed := note es l.noticed }

def heard [VideoCodec K] (l : Lockstep C K D) : List CodecEvent :=
  l.heardBefore ++ ((l.player.session.bind (·.decoder)).elim [] (fun w => VideoCodec.events w.codec))

/-! ## Rounds -/

def tick : Nat := 1000000

def moves : Event → Bool
  | .read (.ok (some _)) | .read .died | .sought _ => true
  | _ => false

/-- A stretch of work: whether anything moved, the deck and the worker behind it, and what has been noticed. -/
structure Stretch (W : Type) where
  moved : Bool
  deck : Deck
  worker : W
  noticed : List Event

/-- The demuxer reads until a pass of its loop brings nothing new, or it is gone.  A read that gave nothing counts as a
move as long as packets may come behind it. -/
def demuxOn [Container C K] (now : Nat) :
    (turns : Nat) → (moved : Bool) → Deck → Demuxer C → (noticed : List Event) → Stretch (Demuxer C)
  | 0, _, d, w, noticed => ⟨true, d, w, noticed⟩
  | turns + 1, moved, d, w, noticed =>
    if w.isGone then ⟨moved, d, w, noticed⟩
    else
      let (d, w, es) := w.turn now d
      let noticed := note es noticed
      if es.any moves then demuxOn now turns true d w noticed
      else ⟨moved || (es.any isRead && !Container.atEnd w.container), d, w, noticed⟩

def decodeOn [VideoCodec K] :
    (steps : Nat) → (moved : Bool) → Deck → Decoder K → (noticed : List Event) → Stretch (Decoder K)
  | 0, _, d, w, noticed => ⟨true, d, w, noticed⟩
  | steps + 1, moved, d, w, noticed =>
    if w.isGone || w.isWaiting d then ⟨moved, d, w, noticed⟩
    else
      let (d, w, e) := w.step d
      decodeOn steps true d w (note e.toList noticed)

/-- More turns, steps and rounds than any session takes. -/
def bound : Nat := 100000000

def round [Container C K] [VideoCodec K] (l : Lockstep C K D) : Bool × Lockstep C K D :=
  match l.player.session with
  | none => (false, l)
  | some s =>
    let read := demuxOn l.now bound false s.deck s.demuxer l.noticed
    let s := { s with demuxer := read.worker }
    match s.decoder with
    | none => (read.moved, { l.withSession { s with deck := read.deck } with noticed := read.noticed })
    | some w =>
      let decoded := decodeOn bound read.moved read.deck w read.noticed
      (decoded.moved,
        { l.withSession { s with deck := decoded.deck, decoder := some decoded.worker } with
          noticed := decoded.noticed })

def settle [Container C K] [VideoCodec K] : (rounds : Nat) → Lockstep C K D → Lockstep C K D
  | 0, l => l
  | rounds + 1, l =>
    let (moved, l) := l.round
    if moved then settle rounds l else l

def rest [Container C K] [VideoCodec K] (l : Lockstep C K D) : Lockstep C K D := l.settle bound

/-! ## What the host does -/

def keep [VideoCodec K] (l : Lockstep C K D) : Lockstep C K D :=
  match l.player.session with
  | none => l
  | some s =>
    { l with
      heardBefore := l.heard
      audioDeck := if s.audio.isSome then some { s.deck with stop := true } else l.audioDeck }

/-- An operation that ends a session if there is one, and maybe begins another. -/
def attach [Container C K] [VideoCodec K] (container : C) (l : Lockstep C K D) :
    Except PlayError Unit × Lockstep C K D :=
  let l := l.keep
  let (r, player, es) := l.player.attach l.now container
  (r, { l with player }.notice es)

def close [Container C K] [VideoCodec K] (l : Lockstep C K D) : Lockstep C K D :=
  let l := l.keep
  let (player, es) := l.player.close l.now
  { l with player }.notice es

def update [AudioDecoder D] (l : Lockstep C K D) : Player.Shown × Lockstep C K D :=
  let (shown, player) := l.player.update l.now
  (shown, { l with player })

def seekTo (time : Float) (l : Lockstep C K D) : Lockstep C K D := { l with player := l.player.seekTo time }

def setPaused [AudioDecoder D] (on : Bool) (l : Lockstep C K D) : Lockstep C K D :=
  let (player, es) := l.player.setPaused l.now on
  { l with player }.notice es

def withAudio (f : D → D) (l : Lockstep C K D) : Lockstep C K D :=
  { l with player := { l.player with session := l.player.session.map (fun s => { s with audio := s.audio.map f }) } }

def pass [Container C K] [VideoCodec K] (l : Lockstep C K D) : Lockstep C K D :=
  let (_, l) := l.round
  { l with now := l.now + tick }

/-- Updates until so many pictures more were shown; they are listed latest first. -/
def showOn [Container C K] [VideoCodec K] [AudioDecoder D] :
    (rounds : Nat) → (count : Nat) → (shown : List Picture) → Lockstep C K D → List Picture × Lockstep C K D
  | _, 0, shown, l => (shown, l)
  | 0, _, shown, l => (shown, l)
  | rounds + 1, count + 1, shown, l =>
    let (u, l) := l.update
    match u.picture with
    | none => showOn rounds (count + 1) shown l.pass
    | some p => if count = 0 then (p :: shown, l) else showOn rounds count (p :: shown) l.pass

/-- Updates until there is no more to come; what was shown is listed latest first. -/
def showOut [Container C K] [VideoCodec K] [AudioDecoder D] :
    (rounds : Nat) → (shown : List Picture) → Lockstep C K D → List Picture × Lockstep C K D
  | 0, shown, l => (shown, l)
  | rounds + 1, shown, l =>
    let (u, l) := l.update
    let shown := u.picture.toList ++ shown
    if u.goesOn then showOut rounds shown l.pass else (shown, l)

def play [Container C K] [VideoCodec K] [AudioDecoder D] (count : Nat) (l : Lockstep C K D) :
    List Picture × Lockstep C K D :=
  let (shown, l) := l.showOn bound count []
  (shown.reverse, l)

def playOut [Container C K] [VideoCodec K] [AudioDecoder D] (l : Lockstep C K D) : List Picture × Lockstep C K D :=
  let (shown, l) := l.showOut bound []
  (shown.reverse, l)

def askForAudio [Container C K] [VideoCodec K] : (rounds : Nat) → Lockstep C K D → Taken × Lockstep C K D
  | 0, l => (.nothing, l)
  | rounds + 1, l =>
    match l.player.session with
    | none => (.stopped, l)
    | some s =>
      if s.audio.isNone then (.stopped, l)
      else
        match s.takeAudio with
        | (.nothing, s) => askForAudio rounds (l.withSession s).pass
        | (taken, s) => (taken, l.withSession s)

def awaitAudio [Container C K] [VideoCodec K] (l : Lockstep C K D) : Taken × Lockstep C K D := l.askForAudio bound

def audioContext (l : Lockstep C K D) : Option Deck :=
  match l.player.session with
  | some s => if s.audio.isSome then some s.deck else l.audioDeck
  | none => l.audioDeck

end Lockstep
end Playhead
