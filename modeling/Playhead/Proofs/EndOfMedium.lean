import Playhead.Proofs.Agreement
import Playhead.Script.Source
/-!
# EndOfMedium — when a medium counts as ended

The demuxer looks at the video queue, the audio queue, the ring and the request slot, one after the other, and sets the
flag if it found nothing anywhere.  What it saw stays true while it looks on: only the demuxer itself puts items on a
queue, only a decode worker that is at work on an item fills the ring, and a worker comes back for the next item before
it counts as idle (`EndLaw`).  So the flag is right when it is set, and stays right until a request or a packet takes it
back; and it is set whenever there is nothing left (`Session.end_detected`).
-/
namespace Playhead

/-- How many of the three places the demuxer has found empty in this pass: video queue, audio queue, ring. -/
def DemuxPoint.checks : DemuxPoint → Nat
  | .audioIdle => 1
  | .ringEmpty => 2
  | .markEnded => 3
  | _ => 0

def Move.isDemux : Move → Bool
  | .demux => true
  | _ => false

def Deck.Quiet (d : Deck) : Prop := d.pendingSeek = none ∧ d.isDrained = true

variable {C K D : Type}

/-- What the flag, and the demuxer on its way to setting it, rely on. -/
structure EndLaw (p : DemuxPoint) (d : Deck) (decoder : Option (Decoder K)) : Prop where
  video : d.ended = true ∨ 1 ≤ p.checks → d.videoQueue.isIdle = true
  audio : d.ended = true ∨ 2 ≤ p.checks → d.audioQueue.isIdle = true
  ring : d.ended = true ∨ 3 ≤ p.checks → d.ring.isEmpty = true
  pending : d.ended = true → d.pendingSeek = none
  /-- A packet is on its way to a queue only after the flag was taken back. -/
  routing : ∀ packet, p = .route packet → d.ended = false
  /-- Who works on an item has not yet come back. -/
  working : ∀ w ∈ decoder, w.point.isWorking = true → d.videoQueue.busy = true

theorem EndLaw.of_not_ended {p : DemuxPoint} {d : Deck} {decoder : Option (Decoder K)} (he : d.ended = false)
    (hp : p.checks = 0) (working : ∀ w ∈ decoder, w.point.isWorking = true → d.videoQueue.busy = true) :
    EndLaw p d decoder where
  video h := by simp [he, hp] at h
  audio h := by simp [he, hp] at h
  ring h := by simp [he, hp] at h
  pending h := by simp [he] at h
  routing _ _ := he
  working := working

theorem EndLaw.goto {p q : DemuxPoint} {d : Deck} {decoder : Option (Decoder K)} (h : EndLaw p d decoder)
    (hv : 1 ≤ q.checks → d.videoQueue.isIdle = true) (ha : 2 ≤ q.checks → d.audioQueue.isIdle = true)
    (hr : 3 ≤ q.checks → d.ring.isEmpty = true) (hroute : ∀ packet, q ≠ .route packet) : EndLaw q d decoder where
  video he := he.elim (fun he => h.video (.inl he)) hv
  audio he := he.elim (fun he => h.audio (.inl he)) ha
  ring he := he.elim (fun he => h.ring (.inl he)) hr
  pending := h.pending
  routing packet hq := absurd hq (hroute packet)
  working := h.working

theorem EndLaw.restart {p q : DemuxPoint} {d : Deck} {decoder : Option (Decoder K)} (h : EndLaw p d decoder)
    (hq : q.checks = 0) (hroute : ∀ packet, q ≠ .route packet) : EndLaw q d decoder :=
  h.goto (fun hc => by omega) (fun hc => by omega) (fun hc => by omega) hroute

theorem EndLaw.not_ended_of_target {p : DemuxPoint} {d : Deck} {decoder : Option (Decoder K)} (h : EndLaw p d decoder)
    (seeking : ∀ t, p.target? = some t → d.pendingSeek.isSome = true) {target : Float}
    (hp : p.target? = some target) : d.ended = false := by
  by_cases he : d.ended = true
  · have hs := seeking target hp
    rw [h.pending he] at hs
    cases hs
  · exact Bool.eq_false_iff.2 he

namespace EndLaw

variable [Container C K] {d : Deck} {w : Demuxer C} {decoder : Option (Decoder K)}

theorem demux_seeking (h : EndLaw w.point d decoder)
    (seeking : ∀ t, w.point.target? = some t → d.pendingSeek.isSome = true) {target : Float}
    (about : w.point.target? = some target) (now : Nat) : EndLaw (w.step now d).2.1.point (w.step now d).1 decoder := by
  have he := h.not_ended_of_target seeking about
  cases hp : w.point with
  | seek target =>
    simp only [Demuxer.step, hp]
    split <;> exact h.restart rfl (fun _ hc => by cases hc)
  | apply target us stage =>
    simp only [Demuxer.step, hp]
    refine .of_not_ended (stage.not_ended_act he now us) ?_ (fun v hv hw => ?_)
    · cases stage.next d <;> rfl
    · rw [stage.busy_act]
      exact h.working v hv hw
  | retire target =>
    simp only [Demuxer.step, hp]
    refine .of_not_ended (by rw [d.ended_completeSeek, he]) rfl (fun v hv hw => ?_)
    rw [d.completeSeek_eq]
    exact h.working v hv hw
  | _ =>
    rw [hp] at about
    cases about

theorem demux_packet (h : EndLaw w.point d decoder) {packet : Packet}
    (hp : w.point = .arrived packet ∨ w.point = .route packet) (now : Nat) :
    EndLaw (w.step now d).2.1.point (w.step now d).1 decoder := by
  rcases hp with hp | hp
  · simp only [Demuxer.step, hp]
    exact .of_not_ended rfl rfl h.working
  · have he := h.routing packet hp
    simp only [Demuxer.step, hp]
    refine .of_not_ended (by rw [d.ended_route, he]) rfl (fun v hv hw => ?_)
    rw [d.busy_route]
    exact h.working v hv hw

/-- At each check one thing more is known to be idle, or the demuxer starts again. -/
theorem demux_check (h : EndLaw w.point d decoder)
    (hp : w.point = .videoIdle ∨ w.point = .audioIdle ∨ w.point = .ringEmpty) (now : Nat) :
    EndLaw (w.step now d).2.1.point (w.step now d).1 decoder := by
  rcases hp with hp | hp | hp
  · simp only [Demuxer.step, hp]
    split
    · next hv =>
      exact h.goto (fun _ => hv) (fun hc => absurd hc (by decide)) (fun hc => absurd hc (by decide))
        (fun _ hc => by cases hc)
    · exact h.restart rfl (fun _ hc => by cases hc)
  · have hv := h.video (.inr (by rw [hp]; decide))
    simp only [Demuxer.step, hp]
    split
    · next ha =>
      exact h.goto (fun _ => hv) (fun _ => ha) (fun hc => absurd hc (by decide)) (fun _ hc => by cases hc)
    · exact h.restart rfl (fun _ hc => by cases hc)
  · have hv := h.video (.inr (by rw [hp]; decide))
    have ha := h.audio (.inr (by rw [hp]; decide))
    simp only [Demuxer.step, hp]
    split
    · next hr => exact h.goto (fun _ => hv) (fun _ => ha) (fun _ => hr) (fun _ hc => by cases hc)
    · exact h.restart rfl (fun _ hc => by cases hc)

theorem demux_mark (h : EndLaw w.point d decoder) (hp : w.point = .markEnded) (now : Nat) :
    EndLaw (w.step now d).2.1.point (w.step now d).1 decoder := by
  have hv := h.video (.inr (by rw [hp]; decide))
  have ha := h.audio (.inr (by rw [hp]; decide))
  have hr := h.ring (.inr (by rw [hp]; decide))
  simp only [Demuxer.step, hp]
  cases hs : d.pendingSeek with
  | some target =>
    have hd : d.markEnded.2 = d := by simp [Deck.markEnded, hs]
    rw [hd]
    exact h.restart rfl (fun _ hc => by cases hc)
  | none =>
    have hd : d.markEnded.2 = { d with ended := true } := by simp [Deck.markEnded, hs]
    rw [hd]
    exact {
      video := fun _ => hv
      audio := fun _ => ha
      ring := fun _ => hr
      pending := fun _ => hs
      routing := fun _ hc => by cases hc
      working := h.working }

theorem demux (h : EndLaw w.point d decoder)
    (seeking : ∀ t, w.point.target? = some t → d.pendingSeek.isSome = true) (now : Nat) :
    EndLaw (w.step now d).2.1.point (w.step now d).1 decoder := by
  cases hp : w.point with
  | seek target => exact h.demux_seeking seeking (hp ▸ rfl : w.point.target? = some target) now
  | apply target us stage => exact h.demux_seeking seeking (hp ▸ rfl : w.point.target? = some target) now
  | retire target => exact h.demux_seeking seeking (hp ▸ rfl : w.point.target? = some target) now
  | arrived packet => exact h.demux_packet (.inl hp) now
  | route packet => exact h.demux_packet (.inr hp) now
  | videoIdle => exact h.demux_check (.inl hp) now
  | audioIdle => exact h.demux_check (.inr (.inl hp)) now
  | ringEmpty => exact h.demux_check (.inr (.inr hp)) now
  | markEnded => exact h.demux_mark hp now
  | start =>
    simp only [Demuxer.step, hp]
    refine h.restart ?_ (fun packet => ?_) <;> unfold DemuxPoint.entry <;> split <;> simp [DemuxPoint.checks]
  | poll =>
    simp only [Demuxer.step, hp]
    refine h.restart ?_ (fun packet => ?_) <;> cases d.pendingSeek <;> simp [DemuxPoint.checks]
  | top | audioRoom | videoRoom =>
    simp only [Demuxer.step, hp]
    refine h.restart ?_ (fun packet => ?_) <;> split <;> simp [DemuxPoint.checks]
  | read =>
    simp only [Demuxer.step, hp]
    split <;> exact h.restart rfl (fun _ hc => by cases hc)
  | leaving how =>
    simp only [Demuxer.step, hp]
    have hq : EndLaw (.gone how) d decoder := h.restart rfl (fun _ hc => by cases hc)
    exact ⟨hq.video, hq.audio, hq.ring, hq.pending, hq.routing, hq.working⟩
  | gone how =>
    simp only [Demuxer.step, hp]
    exact h.restart rfl (fun _ hc => by cases hc)

end EndLaw

/-! ## The other threads -/

namespace Decoder

variable [VideoCodec K]

theorem working_step {d : Deck} {w : Decoder K} (h : w.point.isWorking = true → d.videoQueue.busy = true)
    (hw : (w.step d).2.1.point.isWorking = true) : (w.step d).1.videoQueue.busy = true := by
  cases hp : w.point with
  | take =>
    simp only [step, hp] at hw ⊢
    split at hw
    · next ht => exact PacketQueue.busy_take ht
    · next ht => exact PacketQueue.busy_take ht
    · cases hw
    · cases hw
    · rw [hp] at hw
      cases hw
  | leaving how =>
    simp only [step, hp] at hw
    cases hw
  | gone how =>
    simp only [step, hp] at hw
    cases hw
  | _ =>
    rw [videoQueue_step (by rw [hp]; exact fun hc => by cases hc)]
    exact h (by rw [hp]; rfl)

end Decoder

theorem EndLaw.decode [VideoCodec K] {p : DemuxPoint} {d : Deck} {w : Decoder K} (h : EndLaw p d (some w)) :
    EndLaw p (w.step d).1 (some (w.step d).2.1) := by
  have hwork := h.working w rfl
  have working : ∀ v ∈ some (w.step d).2.1, v.point.isWorking = true → (w.step d).1.videoQueue.busy = true := by
    intro v hv hvw
    cases hv
    exact Decoder.working_step hwork hvw
  cases hw : w.point.isWorking with
  | true =>
    -- the flag is down and nothing has been looked at, for the queue is not idle
    have hbusy : ¬ d.videoQueue.isIdle = true := by
      rw [d.videoQueue.isIdle_iff, hwork hw]
      exact fun hc => Bool.noConfusion hc.2
    have he : d.ended = false := Bool.eq_false_iff.2 (fun he => hbusy (h.video (.inl he)))
    have hc : p.checks = 0 := Nat.lt_one_iff.1 (Nat.lt_of_not_le (fun hc => hbusy (h.video (.inr hc))))
    exact .of_not_ended (by rw [w.ended_step, he]) hc working
  | false =>
    have hq : d.videoQueue.isIdle = true → (w.step d).1.videoQueue.isIdle = true := by
      intro hi
      cases hp : w.point with
      | take =>
        rw [Decoder.videoQueue_step_take hp]
        exact PacketQueue.isIdle_take hi _
      | _ =>
        rw [Decoder.videoQueue_step (by rw [hp]; exact fun hc => by cases hc)]
        exact hi
    have hended := w.ended_step d
    constructor
    case video =>
      intro hc
      rw [hended] at hc
      exact hq (h.video hc)
    case audio =>
      intro hc
      rw [hended] at hc
      rw [w.audioQueue_step]
      exact h.audio hc
    case ring =>
      intro hc
      rw [hended] at hc
      rw [Decoder.ring_step hw]
      exact h.ring hc
    case pending =>
      intro he
      rw [hended] at he
      rw [w.pendingSeek_step]
      exact h.pending he
    case routing =>
      intro r hr
      rw [hended]
      exact h.routing r hr
    case working => exact working

namespace Session

def EndLawful (s : Session C K D) : Prop := EndLaw s.demuxer.point s.deck s.decoder

/-- Nobody asks for anything, nothing is queued, nobody is at work, and no picture waits. -/
structure NothingLeft (s : Session C K D) : Prop where
  pending : s.deck.pendingSeek = none
  queued : ∀ lane, (s.deck.queue lane).items = []
  busy : ∀ lane, (s.deck.queue lane).busy = false
  working : ∀ w ∈ s.decoder, w.point.isWorking = false
  pictures : s.deck.ring.pictures = []

theorem EndLawful.nothingLeft {s : Session C K D} (h : s.EndLawful) (he : s.deck.ended = true) : s.NothingLeft := by
  obtain ⟨hv, hvb⟩ := s.deck.videoQueue.isIdle_iff.1 (h.video (.inl he))
  obtain ⟨ha, hab⟩ := s.deck.audioQueue.isIdle_iff.1 (h.audio (.inl he))
  have hr : s.deck.ring.size = 0 := by simpa [PictureRing.isEmpty] using h.ring (.inl he)
  constructor
  case pending => exact h.pending he
  case queued =>
    intro lane
    cases lane with
    | video => exact hv
    | audio => exact ha
  case busy =>
    intro lane
    cases lane with
    | video => exact hvb
    | audio => exact hab
  case working =>
    intro w hw
    by_cases hc : w.point.isWorking = true
    · rw [h.working w hw hc] at hvb
      cases hvb
    · exact Bool.eq_false_iff.2 hc
  case pictures => rw [← List.length_eq_zero_iff, PictureRing.length_pictures, hr]

theorem EndLawful.point_of_idle {s : Session C K D} (h : s.EndLawful) {w : Decoder K} (hw : s.decoder = some w)
    (hidle : s.deck.videoQueue.isIdle = true) (hend : w.ending? = none) : w.point = .take := by
  obtain ⟨-, hbusy⟩ := s.deck.videoQueue.isIdle_iff.1 hidle
  have hwork : w.point.isWorking = false := by
    rw [← Bool.not_eq_true]
    intro hc
    rw [h.working w hw hc] at hbusy
    cases hbusy
  exact Decoder.point_of_idle hwork hend

theorem EndLawful.not_ended_of_pending {s : Session C K D} (h : s.EndLawful) (hp : s.deck.pendingSeek ≠ none) :
    s.deck.ended = false := by
  rw [← Bool.not_eq_true]
  intro he
  exact hp (h.pending he)

theorem EndLawful.not_ended_of_queued {s : Session C K D} (h : s.EndLawful) {lane : Lane}
    (hq : (s.deck.queue lane).items ≠ []) : s.deck.ended = false := by
  rw [← Bool.not_eq_true]
  intro he
  exact hq ((h.nothingLeft he).queued lane)

variable [Container C K] [VideoCodec K] [AudioDecoder D]

theorem EndLawful.move {s : Session C K D} (h : s.EndLawful)
    (seeking : ∀ t, s.demuxer.point.target? = some t → s.deck.pendingSeek.isSome = true) (now : Nat) (m : Move) :
    (s.move now m).EndLawful := by
  cases m with
  | demux => exact EndLaw.demux h seeking now
  | decode =>
    simp only [Session.move, Session.decode]
    cases hw : s.decoder with
    | none => exact h
    | some w =>
      rw [EndLawful, hw] at h
      exact h.decode
  | takeAudio =>
    exact ⟨h.video, fun hc => PacketQueue.isIdle_take (h.audio hc) _, h.ring, h.pending, h.routing, h.working⟩
  | refresh master =>
    simp only [Session.move]
    split
    · exact h
    · exact ⟨h.video, h.audio, fun hc => PictureRing.isEmpty_refresh (h.ring hc) _ _, h.pending, h.routing, h.working⟩
  | requestSeek target =>
    have looked {n : Nat} (hc : false = true ∨ n ≤ s.demuxer.point.checks) :
        s.deck.ended = true ∨ n ≤ s.demuxer.point.checks := .inr (hc.resolve_left (fun hf => by cases hf))
    constructor
    case video => exact fun hc => h.video (looked hc)
    case audio => exact fun hc => h.audio (looked hc)
    case ring => exact fun hc => h.ring (looked hc)
    case pending => exact fun hc => by cases hc
    case routing => exact fun _ _ => rfl
    case working => exact h.working
  | setPaused on => exact ⟨h.video, h.audio, h.ring, h.pending, h.routing, h.working⟩
  | beginClose => exact ⟨h.video, h.audio, h.ring, h.pending, h.routing, h.working⟩

theorem endLawful_run (now : Nat) (config : Config) (container : C) (audio : Option (StreamInfo × D))
    (video : Option (StreamInfo × K)) (moves : List (Nat × Move)) :
    ((Player.sessionOf now config container audio video : Session C K D).run moves).EndLawful := by
  have start : (Player.sessionOf now config container audio video : Session C K D).EndLawful := by
    refine .of_not_ended rfl rfl (fun w hw hp => ?_)
    obtain ⟨v, -, rfl⟩ := Option.map_eq_some_iff.1 hw
    cases hp
  have keep : ∀ (s : Session C K D) (notes : List Note) (now : Nat) (m : Move),
      s.SeekLawful notes ∧ s.EndLawful → (s.move now m).SeekLawful (notes ++ s.notes m) ∧ (s.move now m).EndLawful :=
    fun s notes now m h => ⟨h.1.move now m, h.2.move h.1.seeking now m⟩
  have both := And.intro (seekLawful_start now config container audio video) start
  exact (run_keeps (P := fun s notes => s.SeekLawful notes ∧ s.EndLawful) keep _ [] both moves).2

/-- Who takes the flag back: a request, or the demuxer with a packet in its hands. -/
theorem ended_move {s : Session C K D} (h : s.EndLawful)
    (seeking : ∀ t, s.demuxer.point.target? = some t → s.deck.pendingSeek.isSome = true)
    (he : s.deck.ended = true) (now : Nat) (m : Move) :
    (s.move now m).deck.ended = true ∨ (∃ target, m = .requestSeek target) ∨
      m = .demux ∧ ∃ p, s.demuxer.point = .arrived p := by
  have own : (s.demux now).1.deck.ended = true ∨ ∃ p, s.demuxer.point = .arrived p := by
    have flag := s.demuxer.ended_step now s.deck
    rw [he] at flag
    rcases s.demuxer.point.flagAfter_true s.deck.pendingSeek with up | packet | ⟨target, us, hp⟩
    · exact .inl (flag.trans up)
    · exact .inr packet
    · have down := EndLaw.not_ended_of_target h seeking (hp ▸ rfl : s.demuxer.point.target? = some target)
      rw [he] at down
      cases down
  cases Move.kind s.demuxer.point m with
  | poll | retire | demux => exact own.imp_right (fun packet => .inr ⟨rfl, packet⟩)
  | request target => exact .inr (.inl ⟨target, rfl⟩)
  | quiet hm hr => exact .inl ((s.asking_move hm hr now).2.1.trans he)

/-- Who sets the flag: the demuxer behind its last check, if nobody asks for anything. -/
theorem markEnded_of_move {s : Session C K D} {now : Nat} {m : Move} (hs : s.deck.ended = false)
    (he : (s.move now m).deck.ended = true) :
    m = .demux ∧ s.demuxer.point = .markEnded ∧ s.deck.pendingSeek = none := by
  have own (hd : (s.demux now).1.deck.ended = true) : s.demuxer.point = .markEnded ∧ s.deck.pendingSeek = none := by
    have flag := s.demuxer.ended_step now s.deck
    rw [hs] at flag
    exact DemuxPoint.flagAfter_set (flag.symm.trans hd)
  cases Move.kind s.demuxer.point m with
  | poll | retire | demux => exact ⟨rfl, own he⟩
  | request target => cases he
  | quiet hm hr =>
    rw [(s.asking_move hm hr now).2.1, hs] at he
    cases he

/-! ## A pass of the loop that finds nothing -/

def checkPoint : Nat → DemuxPoint
  | 0 => .videoIdle
  | 1 => .audioIdle
  | 2 => .ringEmpty
  | _ => .markEnded

theorem check_step {s : Session C K D} {k : Nat} (hk : k < 3) (hp : s.demuxer.point = checkPoint k)
    (hq : s.deck.Quiet) (now : Nat) : (s.move now .demux).demuxer.point = checkPoint (k + 1) := by
  have hd := hq.2
  simp only [Deck.isDrained, Bool.and_eq_true] at hd
  have step : (s.demuxer.step now s.deck).2.1.point = checkPoint (k + 1) := by
    match k, hk with
    | 0, _ => simp [Demuxer.step, hp, checkPoint, hd.1.1]
    | 1, _ => simp [Demuxer.step, hp, checkPoint, hd.1.2]
    | 2, _ => simp [Demuxer.step, hp, checkPoint, hd.2]
  exact step

/-- While the demuxer finds nothing at any of its checks it goes on to the next one, whatever the others do. -/
theorem check_run {s : Session C K D} {k : Nat} (hp : s.demuxer.point = checkPoint k) (moves : List (Nat × Move))
    (hk : k + moves.countP (fun m => m.2.isDemux) ≤ 3)
    (hq : ∀ before now after, moves = before ++ (now, .demux) :: after → (s.run before).deck.Quiet) :
    (s.run moves).demuxer.point = checkPoint (k + moves.countP (fun m => m.2.isDemux)) := by
  induction moves generalizing s k with
  | nil => exact hp
  | cons m moves ih =>
    have tail : ∀ before now after, moves = before ++ (now, .demux) :: after →
        ((s.move m.1 m.2).run before).deck.Quiet :=
      fun before now after he => hq (m :: before) now after (by rw [he]; rfl)
    rw [run_cons]
    by_cases hm : m.2 = .demux
    · have hc : (m :: moves).countP (fun m => m.2.isDemux) = moves.countP (fun m => m.2.isDemux) + 1 := by
        simp [hm, Move.isDemux]
      have hnow : s.deck.Quiet := hq [] m.1 moves (by rw [← hm]; rfl)
      have next : (s.move m.1 m.2).demuxer.point = checkPoint (k + 1) := by
        rw [hm]
        exact check_step (by omega) hp hnow m.1
      rw [hc, ih next (by omega) tail]
      congr 1
      omega
    · have hc : (m :: moves).countP (fun m => m.2.isDemux) = moves.countP (fun m => m.2.isDemux) := by
        cases hmm : m.2 <;> simp_all [Move.isDemux]
      rw [hc] at hk ⊢
      exact ih (by rw [(s.move_slot m.1 hm).1]; exact hp) hk tail

theorem check_pass {s : Session C K D} (hp : s.demuxer.point = checkPoint 0) {moves : List (Nat × Move)}
    (hk : moves.countP (fun m => m.2.isDemux) = 3) (last : Nat)
    (hq : ∀ before now after, moves ++ [(last, .demux)] = before ++ (now, .demux) :: after →
      (s.run before).deck.Quiet) :
    (s.run moves).demuxer.point = .markEnded ∧ ((s.run moves).move last .demux).deck.ended = true := by
  have point : (s.run moves).demuxer.point = .markEnded := by
    have h := check_run hp moves (by omega) (fun before now after he => hq before now (after ++ [(last, .demux)])
      (by rw [he, List.append_assoc, List.cons_append]))
    rwa [hk] at h
  have pending : (s.run moves).deck.pendingSeek = none := (hq moves last [] rfl).1
  refine ⟨point, ?_⟩
  change ((s.run moves).demuxer.step last (s.run moves).deck).1.ended = true
  simp [Demuxer.step, point, Deck.markEnded, pending]

/-! ## What a host can rely on -/

theorem reached (now : Nat) (config : Config) (container : C) (audio : Option (StreamInfo × D))
    (video : Option (StreamInfo × K)) (moves : List (Nat × Move)) :
    let s : Session C K D := (Player.sessionOf now config container audio video).run moves
    s.EndLawful ∧ ∀ t, s.demuxer.point.target? = some t → s.deck.pendingSeek.isSome = true := by
  intro s
  constructor
  · exact endLawful_run now config container audio video moves
  · exact (seekLawful_run now config container audio video moves).seeking

/-- **The end of a medium is found out, and never too early.**  Whatever the order of the moves: while the flag is set
nobody asks for anything, nothing is queued, nobody is at work and no picture waits; only a request and a packet that
was read take the flag back, and they do so before the request can be done with and before anything is put on a queue.
And a pass of the demuxer that reads nothing and finds nothing left, from its first check to its last, leaves the flag
set. -/
theorem end_detected (now : Nat) (config : Config) (container : C) (audio : Option (StreamInfo × D))
    (video : Option (StreamInfo × K)) (moves : List (Nat × Move)) :
    let start : Session C K D := Player.sessionOf now config container audio video
    let s := start.run moves
    (s.deck.ended = true → s.NothingLeft ∧ ∀ at_ m, (s.move at_ m).deck.ended = true ∨
      (∃ target, m = .requestSeek target) ∨ m = .demux ∧ ∃ p, s.demuxer.point = .arrived p) ∧
    (∀ at_ m target, s.deck.pendingSeek = some target → (s.move at_ m).deck.pendingSeek = none →
      s.deck.ended = false ∧ (s.move at_ m).deck.ended = false) ∧
    (∀ at_ m lane i, ((s.move at_ m).deck.queue lane).items = (s.deck.queue lane).items ++ [i] →
      s.deck.ended = false ∧ (s.move at_ m).deck.ended = false) ∧
    (∀ at_ checks last, s.demuxer.point = .read →
      (Container.read s.demuxer.container).1 = .ok none ∨ (∃ e, (Container.read s.demuxer.container).1 = .error e) →
      checks.countP (fun m => m.2.isDemux) = 3 →
      (∀ before now after, checks ++ [(last, .demux)] = before ++ (now, .demux) :: after →
        ((s.move at_ .demux).run before).deck.Quiet) →
      ((s.move at_ .demux).run checks).demuxer.point = .markEnded ∧
        (((s.move at_ .demux).run checks).move last .demux).deck.ended = true) := by
  intro start s
  obtain ⟨law, seeking⟩ : s.EndLawful ∧ ∀ t, s.demuxer.point.target? = some t → s.deck.pendingSeek.isSome = true :=
    reached now config container audio video moves
  have next : ∀ at_ m, (s.move at_ m).EndLawful := fun at_ m => EndLawful.move law seeking at_ m
  refine ⟨?_, ?_, ?_, ?_⟩
  · intro he
    exact ⟨law.nothingLeft he, ended_move law seeking he⟩
  · intro at_ m target hs hn
    have before : s.deck.ended = false := by
      apply law.not_ended_of_pending
      rw [hs]
      exact fun hc => by cases hc
    refine ⟨before, ?_⟩
    rw [← Bool.not_eq_true]
    intro he
    have empty := (markEnded_of_move before he).2.2
    rw [hs] at empty
    cases empty
  · intro at_ m lane i hi
    have queued : ((s.move at_ m).deck.queue lane).items ≠ [] := by
      rw [hi]
      exact List.append_ne_nil_of_right_ne_nil _ (List.cons_ne_nil _ _)
    have after : (s.move at_ m).deck.ended = false := (next at_ m).not_ended_of_queued queued
    refine ⟨?_, after⟩
    rw [← Bool.not_eq_true]
    intro he
    -- whoever takes the flag back puts nothing on a queue
    have put : ((s.move at_ m).deck.queue lane).items ≠ (s.deck.queue lane).items := by
      rw [hi]
      exact fun hc => List.cons_ne_nil i [] (List.append_right_eq_self.1 hc)
    rcases ended_move law seeking he at_ m with ha | ⟨target, rfl⟩ | ⟨rfl, p, hp⟩
    · rw [after] at ha
      cases ha
    · exact put rfl
    · apply put
      change ((s.demuxer.step at_ s.deck).1.queue lane).items = _
      simp only [Demuxer.step, hp]
      cases lane <;> rfl
  · intro at_ checks last hp hr hk hq
    have first : (s.move at_ .demux).demuxer.point = checkPoint 0 := by
      change (s.demuxer.step at_ s.deck).2.1.point = .videoIdle
      simp only [Demuxer.step, hp]
      rcases hc : Container.read s.demuxer.container with ⟨r, c⟩
      rw [hc] at hr
      rcases hr with rfl | ⟨e, rfl⟩ <;> rfl
    exact check_pass first hk last hq

/-- Both pictures of a medium have been shown when the demuxer comes to read behind the last packet; with the decode
worker and the driver coming in between its checks it sets the flag. -/
theorem end_detected_two_pictures :
    let second (n : Nat) : Script.Item :=
      .sample
        { pts := some (.ofNat n), size := 4,
          yields := [.frame { timestamp := some (.ofNat n), width := 1, height := 1 }] }
    let items : Array Script.Item := #[second 0, second 1]
    let start : Session Script.Source Script.Codec Empty :=
      Player.sessionOf 0 {} { items } none (some ({ kind := .video, timeBase := ⟨1, 1⟩ }, { items }))
    let played := (List.range 62).map (fun k =>
      (k, if k % 5 = 4 then Move.refresh none else if k % 2 = 0 then .decode else .demux))
    let checks : List (Nat × Move) := [(63, .demux), (64, .decode), (65, .demux), (66, .refresh none), (67, .demux)]
    let s := start.run played
    let t := ((s.move 62 .demux).run checks).move 68 .demux
    s.deck.ring.lastPts = 1 ∧ s.demuxer.point = .read ∧ s.deck.ended = false ∧ t.deck.ended = true ∧ t.NothingLeft := by
  intro second items start played checks s t
  have there : s.deck.ring.lastPts = 1 ∧ s.demuxer.point = .read ∧ s.deck.ended = false ∧
      (Container.read s.demuxer.container).1 = .ok none ∧
      ∀ k < 6, let d := ((s.move 62 .demux).run ((checks ++ [(68, Move.demux)]).take k)).deck
        d.pendingSeek = none ∧ d.isDrained = true := by decide +kernel
  obtain ⟨shown, read, before, nothing, quiet⟩ := there
  have law := end_detected (C := Script.Source) (K := Script.Codec) (D := Empty) 0 {} { items } none
    (some ({ kind := .video, timeBase := ⟨1, 1⟩ }, { items }))
  clear_value played
  obtain ⟨-, -, -, detects⟩ := law played
  have ended : t.deck.ended = true := by
    refine (detects 62 checks 68 read (.inl nothing) rfl (fun front now rest he => ?_)).2
    have early : front.length < 6 := by
      have := congrArg List.length he
      simp only [checks, List.length_append, List.length_cons, List.length_nil] at this
      omega
    have := quiet front.length early
    rwa [he, List.take_left] at this
  have whole : start.run (played ++ (62, .demux) :: checks ++ [(68, .demux)]) = t := by
    simp only [run_append, run_cons]
    rfl
  obtain ⟨sound, -⟩ := law (played ++ (62, .demux) :: checks ++ [(68, .demux)])
  rw [whole] at sound
  exact ⟨shown, read, before, ended, (sound ended).1⟩

end Session

end Playhead
