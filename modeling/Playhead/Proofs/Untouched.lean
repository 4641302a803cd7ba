import Playhead.Player
/-!
# Untouched — what an action leaves alone

For each action of the workers one equation: the deck behind it is the deck before it, but for these fields.
-/
namespace Playhead

namespace Deck

theorem route_eq (d : Deck) (p : Packet) :
    d.route p = { d with videoQueue := (d.route p).videoQueue, audioQueue := (d.route p).audioQueue } := by
  unfold route
  split
  · rfl
  · split <;> rfl

theorem completeSeek_eq (d : Deck) (target : Float) :
    d.completeSeek target = { d with pendingSeek := if d.pendingSeek == some target then none else d.pendingSeek } := by
  unfold completeSeek
  split <;> rfl

theorem markEnded_eq (d : Deck) :
    d.markEnded.2 = { d with ended := if d.pendingSeek.isSome then d.ended else true } := by
  unfold markEnded
  split <;> rfl

theorem ended_route (d : Deck) (p : Packet) : (d.route p).ended = d.ended := by
  rw [route_eq]

theorem pendingSeek_route (d : Deck) (p : Packet) : (d.route p).pendingSeek = d.pendingSeek := by
  rw [route_eq]

theorem ended_completeSeek (d : Deck) (target : Float) : (d.completeSeek target).ended = d.ended := by
  rw [completeSeek_eq]

theorem busy_route (d : Deck) (p : Packet) : (d.route p).videoQueue.busy = d.videoQueue.busy := by
  unfold route
  split
  · rfl
  · split <;> rfl

end Deck

namespace SeekStage

theorem act_eq (stage : SeekStage) (now : Nat) (us : Ticks) (d : Deck) :
    stage.act now us d =
      { d with
        videoQueue := (stage.act now us d).videoQueue
        audioQueue := (stage.act now us d).audioQueue
        ring := (stage.act now us d).ring
        clock := (stage.act now us d).clock
        ended := (stage.act now us d).ended } := by
  rcases d with ⟨config, video, audio⟩
  cases stage with
  | markAudio => cases audio <;> rfl
  | markVideo => cases video <;> rfl
  | _ => rfl

theorem pendingSeek_act (stage : SeekStage) (now : Nat) (us : Ticks) (d : Deck) :
    (stage.act now us d).pendingSeek = d.pendingSeek := by
  rw [act_eq]

theorem not_ended_act {d : Deck} (h : d.ended = false) (stage : SeekStage) (now : Nat) (us : Ticks) :
    (stage.act now us d).ended = false := by
  cases stage with
  | markAudio => simp only [act]; cases d.audio <;> exact h
  | markVideo => simp only [act]; cases d.video <;> exact h
  | unsetEnded => rfl
  | _ => exact h

theorem busy_act (stage : SeekStage) (now : Nat) (us : Ticks) (d : Deck) :
    (stage.act now us d).videoQueue.busy = d.videoQueue.busy := by
  cases stage with
  | markAudio => simp only [act]; cases d.audio <;> rfl
  | markVideo => simp only [act]; cases d.video <;> rfl
  | _ => rfl

end SeekStage

theorem Demuxer.step_eq {C K : Type} [Container C K] (now : Nat) (d : Deck) (w : Demuxer C) :
    (w.step now d).1 =
      { d with
        stop := (w.step now d).1.stop
        ended := (w.step now d).1.ended
        pendingSeek := (w.step now d).1.pendingSeek
        videoQueue := (w.step now d).1.videoQueue
        audioQueue := (w.step now d).1.audioQueue
        ring := (w.step now d).1.ring
        clock := (w.step now d).1.clock } := by
  cases hp : w.point with
  | apply target us stage =>
    simp only [Demuxer.step, hp]
    rw [stage.act_eq]
  | retire target =>
    simp only [Demuxer.step, hp]
    rw [d.completeSeek_eq]
  | route p =>
    simp only [Demuxer.step, hp]
    rw [d.route_eq]
  | markEnded =>
    simp only [Demuxer.step, hp]
    rw [d.markEnded_eq]
  | seek target | read =>
    simp only [Demuxer.step, hp]
    split <;> rfl
  | _ => simp only [Demuxer.step, hp]

def DecodePoint.isWorking : DecodePoint → Bool
  | .take | .leaving _ | .gone _ => false
  | _ => true

theorem Decoder.point_of_idle {K : Type} {w : Decoder K} (hw : w.point.isWorking = false) (he : w.ending? = none) :
    w.point = .take := by
  cases hp : w.point with
  | take => rfl
  | leaving how => simp [Decoder.ending?, hp] at he
  | gone how => simp [Decoder.ending?, hp] at he
  | _ =>
    rw [hp] at hw
    cases hw

theorem Decoder.advance_cases {K : Type} (w : Decoder K) (f : FrameInfo) :
    (w.advance f).codec = w.codec ∧ ((w.advance f).point = .receive ∨ ∃ pts, (w.advance f).point = .place pts) := by
  unfold advance
  simp only
  split
  · exact ⟨rfl, .inl rfl⟩
  · exact ⟨rfl, .inr ⟨_, rfl⟩⟩

namespace Decoder

variable {K : Type} [VideoCodec K]

theorem step_eq (d : Deck) (w : Decoder K) :
    (w.step d).1 =
      { d with
        videoQueue := (w.step d).1.videoQueue
        ring := (w.step d).1.ring
        stop := (w.step d).1.stop } := by
  unfold step
  repeat' split
  all_goals rfl

theorem pendingSeek_step (d : Deck) (w : Decoder K) : (w.step d).1.pendingSeek = d.pendingSeek := by
  rw [step_eq]

theorem ended_step (d : Deck) (w : Decoder K) : (w.step d).1.ended = d.ended := by
  rw [step_eq]

theorem audioQueue_step (d : Deck) (w : Decoder K) : (w.step d).1.audioQueue = d.audioQueue := by
  rw [step_eq]

theorem videoQueue_step {w : Decoder K} (h : w.point ≠ .take) (d : Deck) :
    (w.step d).1.videoQueue = d.videoQueue := by
  cases hp : w.point with
  | take => exact absurd hp h
  | _ =>
    simp only [step, hp]
    repeat' split
    all_goals rfl

theorem videoQueue_step_take {w : Decoder K} (h : w.point = .take) (d : Deck) :
    (w.step d).1.videoQueue = (d.videoQueue.take d.stop).2 := by
  simp only [step, h]
  repeat' split
  all_goals rfl

theorem ring_step {w : Decoder K} (h : w.point.isWorking = false) (d : Deck) : (w.step d).1.ring = d.ring := by
  cases hp : w.point with
  | take =>
    simp only [step, hp]
    repeat' split
    all_goals rfl
  | leaving how => simp only [step, hp]
  | gone how => simp only [step, hp]
  | _ => rw [hp] at h; cases h

end Decoder

theorem Session.move_streams {C K D : Type} [Container C K] [VideoCodec K] [AudioDecoder D] (s : Session C K D)
    (now : Nat) (m : Move) : (s.move now m).deck.video = s.deck.video ∧ (s.move now m).deck.audio = s.deck.audio := by
  cases m with
  | demux =>
    change (s.demuxer.step now s.deck).1.video = _ ∧ (s.demuxer.step now s.deck).1.audio = _
    rw [s.demuxer.step_eq]
    exact ⟨rfl, rfl⟩
  | decode =>
    simp only [Session.move, Session.decode]
    cases s.decoder with
    | none => exact ⟨rfl, rfl⟩
    | some w =>
      change (w.step s.deck).1.video = _ ∧ (w.step s.deck).1.audio = _
      rw [w.step_eq]
      exact ⟨rfl, rfl⟩
  | refresh master =>
    simp only [Session.move]
    split <;> exact ⟨rfl, rfl⟩
  | takeAudio | requestSeek target | setPaused on | beginClose => exact ⟨rfl, rfl⟩

theorem Session.decoder_move {C K D : Type} [Container C K] [VideoCodec K] [AudioDecoder D] (s : Session C K D)
    (now : Nat) {m : Move} (hm : m ≠ .decode) : (s.move now m).decoder = s.decoder := by
  cases m with
  | decode => exact absurd rfl hm
  | refresh master =>
    simp only [move]
    split <;> rfl
  | demux | takeAudio | requestSeek target | setPaused on | beginClose => rfl

end Playhead
