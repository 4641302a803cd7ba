import Playhead.Proofs.SeekRequests
/-!
# Agreement — sessions that differ in a request, the flag, and the place of the demuxer

The request slot and the flag are read by the demuxer alone, at three of its places.  So two sessions that agree in all
the rest go on agreeing whatever is done in both, and what an action does to the slot and the flag can be said apart
from all the rest (`Demuxer.step_asking`, `Session.move_elsewhere`).
-/
namespace Playhead

def Deck.asking (d : Deck) (pending : Option Float) (ended : Bool) : Deck := { d with pendingSeek := pending, ended }

namespace DemuxPoint

def slotAfter (p : DemuxPoint) (pending : Option Float) : Option Float :=
  match p with
  | .retire target => if pending == some target then none else pending
  | _ => pending

def flagAfter (p : DemuxPoint) (pending : Option Float) (ended : Bool) : Bool :=
  match p with
  | .apply _ _ .unsetEnded | .arrived _ => false
  | .markEnded => if pending.isSome then ended else true
  | _ => ended

/-- Where the demuxer goes on, which depends on a request only where it looks for one. -/
def goesOn (p : DemuxPoint) (pending : Option Float) (next : DemuxPoint) : DemuxPoint :=
  match p with
  | .poll => pending.elim .audioRoom .seek
  | _ => next

theorem slotAfter_eq {p : DemuxPoint} (hretire : ∀ target, p ≠ .retire target) (pending : Option Float) :
    p.slotAfter pending = pending := by
  unfold slotAfter
  split
  · next target => exact absurd rfl (hretire target)
  · rfl

theorem goesOn_eq {p : DemuxPoint} (hpoll : p ≠ .poll) (pending : Option Float) (next : DemuxPoint) :
    p.goesOn pending next = next := by
  unfold goesOn
  split
  · exact absurd rfl hpoll
  · rfl

theorem flagAfter_of {p : DemuxPoint} {pending pending' : Option Float} {ended ended' : Bool}
    (flag : ended = true → ended' = true) (slot : pending = none → pending' = none)
    (h : p.flagAfter pending ended = true) : p.flagAfter pending' ended' = true := by
  unfold flagAfter at h ⊢
  split at h
  · cases h
  · cases h
  · cases hs : pending with
    | none =>
      rw [slot hs]
      rfl
    | some r =>
      rw [hs] at h
      split
      · exact flag h
      · rfl
  · exact flag h

theorem flagAfter_set {p : DemuxPoint} {pending : Option Float} (h : p.flagAfter pending false = true) :
    p = .markEnded ∧ pending = none := by
  unfold flagAfter at h
  split at h
  · cases h
  · cases h
  · cases pending with
    | none => exact ⟨rfl, rfl⟩
    | some r => cases h
  · cases h

theorem flagAfter_true (p : DemuxPoint) (pending : Option Float) :
    p.flagAfter pending true = true ∨ (∃ packet, p = .arrived packet) ∨
      ∃ target us, p = .apply target us .unsetEnded := by
  unfold flagAfter
  split
  · next target us => exact .inr (.inr ⟨target, us, rfl⟩)
  · next packet => exact .inr (.inl ⟨packet, rfl⟩)
  · cases pending <;> exact .inl rfl
  · exact .inl rfl

end DemuxPoint

/-- The moves, told apart by what they do to the slot. -/
inductive Move.Kind (p : DemuxPoint) : Move → Prop
  | poll (hp : p = .poll) : Kind p .demux
  | retire (target : Float) (hp : p = .retire target) : Kind p .demux
  | demux (hpoll : p ≠ .poll) (hretire : ∀ target, p ≠ .retire target) : Kind p .demux
  | request (target : Float) : Kind p (.requestSeek target)
  | quiet {m : Move} (hm : m ≠ .demux) (hr : ∀ target, m ≠ .requestSeek target) : Kind p m

theorem Move.kind (p : DemuxPoint) (m : Move) : Kind p m := by
  cases m with
  | demux =>
    cases p with
    | poll => exact .poll rfl
    | retire target => exact .retire target rfl
    | _ => exact .demux nofun nofun
  | requestSeek target => exact .request target
  | _ => exact .quiet nofun nofun

variable {C K D : Type}

theorem SeekStage.act_asking (stage : SeekStage) (now : Nat) (us : Ticks) (d : Deck) (pending : Option Float)
    (ended : Bool) (target : Float) :
    stage.act now us (d.asking pending ended) =
      (stage.act now us d).asking pending (DemuxPoint.flagAfter (.apply target us stage) pending ended) := by
  rcases d with ⟨config, video, audio⟩
  cases stage with
  | markAudio => cases audio <;> rfl
  | markVideo => cases video <;> rfl
  | _ => rfl

theorem Deck.route_asking (d : Deck) (p : Packet) (pending : Option Float) (ended : Bool) :
    (d.asking pending ended).route p = (d.route p).asking pending ended := by
  unfold route asking
  by_cases hv : d.video.map (·.index) = some p.stream
  · simp only [hv, if_true]
  · by_cases ha : d.audio.map (·.index) = some p.stream
    · simp only [hv, ha, if_true, if_false]
    · simp only [hv, ha, if_false]

/-- **What an action of the demuxer has to do with the slot and the flag.** -/
theorem Demuxer.step_asking [Container C K] (now : Nat) (d : Deck) (w : Demuxer C) (pending : Option Float)
    (ended : Bool) :
    w.step now (d.asking pending ended) =
      ((w.step now d).1.asking (w.point.slotAfter pending) (w.point.flagAfter pending ended),
        { (w.step now d).2.1 with point := w.point.goesOn pending (w.step now d).2.1.point },
        (w.step now d).2.2) := by
  cases hp : w.point with
  | apply target us stage =>
    simp only [step, hp, stage.act_asking now us d pending ended target]
    rfl
  | route p =>
    simp only [step, hp, d.route_asking]
    rfl
  | retire target =>
    simp only [step, hp, Deck.completeSeek_eq]
    rfl
  | markEnded =>
    simp only [step, hp, Deck.markEnded_eq]
    rfl
  | seek target | read =>
    simp only [step, hp]
    split <;> rfl
  | _ =>
    simp only [step, hp]
    rfl

theorem Demuxer.pendingSeek_step [Container C K] (now : Nat) (d : Deck) (w : Demuxer C) :
    (w.step now d).1.pendingSeek = w.point.slotAfter d.pendingSeek :=
  congrArg (·.1.pendingSeek) (w.step_asking now d d.pendingSeek d.ended)

theorem Demuxer.ended_step [Container C K] (now : Nat) (d : Deck) (w : Demuxer C) :
    (w.step now d).1.ended = w.point.flagAfter d.pendingSeek d.ended :=
  congrArg (·.1.ended) (w.step_asking now d d.pendingSeek d.ended)

theorem Decoder.step_asking [VideoCodec K] (d : Deck) (w : Decoder K) (pending : Option Float) (ended : Bool) :
    w.step (d.asking pending ended) = ((w.step d).1.asking pending ended, (w.step d).2) := by
  cases hp : w.point with
  | take =>
    simp only [step, hp, Deck.asking]
    split <;> rfl
  | flushCodec start | send p | receive | place pts | convert pts =>
    simp only [step, hp, Deck.asking]
    split <;> rfl
  | resetRing start | commit pts | leaving how =>
    simp only [step, hp]
    rfl
  | gone how => simp only [step, hp]

namespace Session

/-- The session with another request in its slot, another flag, and the demuxer at another place. -/
def elsewhere (s : Session C K D) (pending : Option Float) (ended : Bool) (p : DemuxPoint) : Session C K D :=
  { s with deck := s.deck.asking pending ended, demuxer := { s.demuxer with point := p } }

/-- The sessions are the same but for a request, the flag, and the place of the demuxer. -/
structure Agrees (s t : Session C K D) : Prop where
  deck : t.deck = s.deck.asking t.deck.pendingSeek t.deck.ended
  master : t.master = s.master
  info : t.info = s.info
  audio : t.audio = s.audio
  decoder : t.decoder = s.decoder
  container : t.demuxer.container = s.demuxer.container

theorem agrees_elsewhere (s : Session C K D) (pending : Option Float) (ended : Bool) (p : DemuxPoint) :
    s.Agrees (s.elsewhere pending ended p) := ⟨rfl, rfl, rfl, rfl, rfl, rfl⟩

variable [Container C K] [VideoCodec K] [AudioDecoder D]

omit [VideoCodec K] [AudioDecoder D] in
theorem demux_elsewhere (s : Session C K D) (now : Nat) (pending : Option Float) (ended : Bool) :
    let p := s.demuxer.point
    let t := (s.demux now).1
    ((s.elsewhere pending ended p).demux now).1 =
      t.elsewhere (p.slotAfter pending) (p.flagAfter pending ended) (p.goesOn pending t.demuxer.point) := by
  simp only [demux, elsewhere, s.demuxer.step_asking]

theorem move_elsewhere (s : Session C K D) (now : Nat) {m : Move} (hm : m ≠ .demux) (hr : ∀ t, m ≠ .requestSeek t)
    (pending : Option Float) (ended : Bool) (p : DemuxPoint) :
    (s.elsewhere pending ended p).move now m = (s.move now m).elsewhere pending ended p := by
  cases m with
  | demux => exact absurd rfl hm
  | requestSeek target => exact absurd rfl (hr target)
  | decode =>
    rcases s with ⟨deck, master, info, audio, demuxer, decoder⟩
    cases decoder with
    | none => rfl
    | some w =>
      simp only [move, decode, elsewhere, w.step_asking]
  | refresh master =>
    simp only [move]
    change (if s.deck.paused then _ else _) = _
    split <;> rfl
  | takeAudio | setPaused on | beginClose => rfl

theorem asking_move (s : Session C K D) {m : Move} (hm : m ≠ .demux) (hr : ∀ t, m ≠ .requestSeek t) (now : Nat) :
    (s.move now m).deck.pendingSeek = s.deck.pendingSeek ∧ (s.move now m).deck.ended = s.deck.ended ∧
      (s.move now m).demuxer = s.demuxer := by
  have own := s.move_elsewhere now hm hr s.deck.pendingSeek s.deck.ended s.demuxer.point
  exact ⟨congrArg (·.deck.pendingSeek) own, congrArg (·.deck.ended) own, (s.move_slot now hm).1⟩

end Session

end Playhead
