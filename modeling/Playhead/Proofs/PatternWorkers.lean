import Playhead.Proofs.PatternReads
import Playhead.Proofs.PlayingOut
import Playhead.Proofs.Schedules
/-!
# PatternWorkers — the workers on the test pattern

The codec of the test pattern refuses no packet that has room for a frame number, and the container gives no others
that are played; so both workers of a session stay in their loops until somebody stops them (`healthy_run`), the decode
worker comes nearer with every step to where it waits (`nearer_step`), and the epoch is that of the seek that was
applied last (`aims_run`).
-/
namespace Playhead

variable {C K D : Type}

namespace TestPattern

open Source

/-- Nobody has stopped, the workers are in their loops, and every packet for the decode worker has room for a frame
number. -/
structure Healthy (x : Session Source Codec D) : Prop where
  stop : x.deck.stop = false
  demuxer : 1 < x.demuxer.point.toGo
  inHand : ∀ p ∈ x.demuxer.point.inHand, x.deck.laneOf p = some .video → 8 ≤ p.size
  queued : ∀ p, .packet p ∈ x.deck.videoQueue.items → 8 ≤ p.size
  sent : ∀ w ∈ x.decoder, ∀ p, w.point = .send p → 8 ≤ p.size
  flushing : x.deck.videoQueue.flushing = false
  decoder : ∀ w ∈ x.decoder, w.ending? = none

variable {s : Source} {d : Deck} {w : Decoder Codec}

theorem size_videoPacket (hs : s.Regular) (n : Nat) : 8 ≤ (s.videoPacket 0 n).size := by
  have hdata : (s.videoPacket 0 n).data = (Bytes.littleEndian 8 n).toByteArray ++ Bytes.zeros (s.packetSize - 8) := by
    simp only [videoPacket, hs.whole, reduceCtorEq, if_false]
  rw [Packet.size, hdata, ByteArray.size_append, List.size_toByteArray, Bytes.length_littleEndian]
  exact Nat.le_add_right _ _

theorem demuxer_step (hs : s.Regular) {w : Demuxer Source} (hc : s.Of w.container) (hv : d.video = some s.videoStream)
    (hstop : d.stop = false) (hloop : 1 < w.point.toGo) (now : Nat) :
    1 < (w.step now d).2.1.point.toGo ∧
      ∀ p ∈ (w.step now d).2.1.point.inHand, p ∈ w.point.inHand ∨ (d.laneOf p = some .video → 8 ≤ p.size) := by
  have stays {p q : DemuxPoint} (h : 1 < q.toGo) (hq : q.inHand = []) :
      1 < q.toGo ∧ ∀ a ∈ q.inHand, a ∈ p.inHand ∨ (d.laneOf a = some .video → 8 ≤ a.size) :=
    ⟨h, fun a ha => by rw [hq] at ha; cases ha⟩
  cases hp : w.point with
  | start =>
    simp only [Demuxer.step, hp, DemuxPoint.entry, hv]
    exact stays (by simp [DemuxPoint.toGo]) rfl
  | top =>
    simp only [Demuxer.step, hp, hstop]
    exact stays (by simp [DemuxPoint.toGo]) rfl
  | poll =>
    simp only [Demuxer.step, hp]
    cases d.pendingSeek <;> exact stays (by simp [DemuxPoint.toGo]) rfl
  | seek target =>
    simp only [Demuxer.step, hp, hc.seek_eq hs]
    exact stays (SeekStage.toGo_first d).1 rfl
  | apply target us stage =>
    simp only [Demuxer.step, hp]
    refine stays (stage.toGo_next d target us).1 ?_
    cases stage.next d <;> rfl
  | audioRoom | videoRoom | videoIdle | audioIdle | ringEmpty =>
    simp only [Demuxer.step, hp]
    split <;> exact stays (by decide) rfl
  | retire _ | route _ | markEnded =>
    simp only [Demuxer.step, hp]
    exact stays (by simp [DemuxPoint.toGo]) rfl
  | arrived p =>
    simp only [Demuxer.step, hp]
    exact ⟨by simp [DemuxPoint.toGo], fun _ ha => .inl ha⟩
  | read =>
    have hread : Container.read w.container = w.container.read := rfl
    obtain ⟨-, hcases⟩ := (hc.regular hs).read_cases
    simp only [Demuxer.step, hp, hread]
    rcases hr : w.container.read with ⟨r, c⟩
    rw [hr] at hcases
    rcases hcases with ⟨-, rfl, -⟩ | ⟨-, ⟨n, rfl⟩, -⟩ | ⟨-, rfl, -⟩
    · refine ⟨by simp [DemuxPoint.toGo], fun a ha => .inr (fun _ => ?_)⟩
      rw [List.mem_singleton.1 ha]
      exact size_videoPacket (hc.regular hs) _
    · refine ⟨by simp [DemuxPoint.toGo], fun a ha => .inr (fun hlane => ?_)⟩
      rw [List.mem_singleton.1 ha, hc] at hlane
      exact absurd hlane (laneOf_audio hv n)
    · exact stays (by simp [DemuxPoint.toGo]) rfl
  | leaving how | gone how =>
    rw [hp] at hloop
    exact absurd hloop (by simp [DemuxPoint.toGo])

/-- How much a decode worker still has to do, with what it has in its hands, before it comes for another item. -/
def toTake (busy : Bool) : DecodePoint → Nat
  | .take => if busy then 1 else 0
  | .receive | .resetRing _ => 2
  | .flushCodec _ | .commit _ => 3
  | .convert _ => 4
  | .place _ => 5
  | .send _ => 7
  | .leaving _ | .gone _ => 0

/-- How much a decode worker still has to do before it waits for another item. -/
def load (d : Deck) (w : Decoder Codec) : Nat :=
  8 * d.videoQueue.items.length + 4 * w.codec.pending.toList.length + toTake d.videoQueue.busy w.point

/-- What a step of a decode worker comes to: it is in its loop, sends no packet but one that it took, and has come
nearer to where it waits. -/
def Nearer (d : Deck) (w : Decoder Codec) (d' : Deck) (w' : Decoder Codec) : Prop :=
  w'.ending? = none ∧ (∀ p, w'.point = .send p → .packet p ∈ d.videoQueue.items) ∧
    (w.isWaiting d = false → load d' w' < load d w)

theorem nearer_of_take (hstop : d.stop = false) (hflush : d.videoQueue.flushing = false) (hp : w.point = .take) :
    Nearer d w (w.step d).1 (w.step d).2.1 := by
  cases hi : d.videoQueue.items with
  | nil =>
    obtain ⟨htaken, hitems⟩ := PacketQueue.take_of_nil hi
    rw [hflush] at htaken
    have hstep : w.step d = ({ d with videoQueue := (d.videoQueue.take false).2 }, w, none) := by
      simp only [Decoder.step, hp, hstop, htaken]
      rfl
    rw [hstep]
    refine ⟨by rw [Decoder.ending?, hp], fun _ h => (by rw [hp] at h; cases h), fun hw => ?_⟩
    have hbusy : d.videoQueue.busy = true := by
      have he : d.videoQueue.isEmpty = true := d.videoQueue.isEmpty_iff.2 hi
      simpa [Decoder.isWaiting, hp, PacketQueue.blocks, hstop, he, hflush] using hw
    simp [load, toTake, hp, hi, hitems, hbusy, PacketQueue.busy_take_nil hi]
  | cons i items =>
    obtain ⟨htaken, hitems⟩ := PacketQueue.take_of_cons hi
    cases i with
    | packet p =>
      have hstep : w.step d =
          ({ d with videoQueue := (d.videoQueue.take false).2 }, { w with point := .send p }, none) := by
        simp only [Decoder.step, hp, hstop, htaken]
      rw [hstep]
      refine ⟨rfl, fun q hq => ?_, fun _ => ?_⟩
      · cases hq
        rw [hi]
        exact List.mem_cons_self
      · simp only [load, toTake, hp, hi, hitems, List.length_cons]
        omega
    | marker start =>
      have hstep : w.step d =
          ({ d with videoQueue := (d.videoQueue.take false).2 }, { w with point := .flushCodec start }, none) := by
        simp only [Decoder.step, hp, hstop, htaken]
      rw [hstep]
      refine ⟨rfl, fun _ h => (by cases h), fun _ => ?_⟩
      simp only [load, toTake, hp, hi, hitems, List.length_cons]
      omega

theorem nearer_of_receive (hp : w.point = .receive) : Nearer d w (w.step d).1 (w.step d).2.1 := by
  cases hpop : w.codec.pending.pop? with
  | none =>
    have hk : VideoCodec.receive w.codec = (.ok none, w.codec) := by
      change w.codec.receive = _
      rw [Codec.receive, hpop]
    have hstep : w.step d = (d, { w with point := .take }, none) := by
      simp only [Decoder.step, hp, hk]
    rw [hstep]
    refine ⟨rfl, fun _ h => (by cases h), fun _ => ?_⟩
    simp only [load, toTake, hp]
    split <;> omega
  | some r =>
    have hpending := Fifo.pop?_eq_some hpop
    obtain ⟨f, hk⟩ : ∃ f, VideoCodec.receive w.codec =
        (.ok (some f), { w.codec with pending := r.2, current := r.1.1 }) := by
      change ∃ f, w.codec.receive = _
      rw [Codec.receive, hpop]
      exact ⟨_, rfl⟩
    have hstep : w.step d =
        (d, ({ w with codec := { w.codec with pending := r.2, current := r.1.1 } } : Decoder Codec).advance f,
          none) := by
      simp only [Decoder.step, hp, hk]
    obtain ⟨hcodec, hpoint⟩ :=
      Decoder.advance_cases { w with codec := { w.codec with pending := r.2, current := r.1.1 } } f
    rw [hstep]
    generalize Decoder.advance _ _ = w' at hcodec hpoint ⊢
    rcases hpoint with hpoint | ⟨pts, hpoint⟩
    all_goals
      refine ⟨by rw [Decoder.ending?, hpoint], fun _ h => (by rw [hpoint] at h; cases h), fun _ => ?_⟩
      simp only [load, toTake, hcodec, hp, hpoint, hpending, List.length_cons]
      omega

/-- **A worker that is not told to stop stays in its loop**, and comes nearer to where it waits unless it is there. -/
theorem nearer_step (hstop : d.stop = false) (hflush : d.videoQueue.flushing = false) (hloop : w.ending? = none)
    (hsent : ∀ p, w.point = .send p → 8 ≤ p.size) : Nearer d w (w.step d).1 (w.step d).2.1 := by
  have goes {q : DecodePoint} {k : Codec} {image : Image} {d' : Deck}
      (hstep : w.step d = (d', { w with codec := k, spare := image, point := q }, none))
      (hq : ({ w with codec := k, spare := image, point := q } : Decoder Codec).ending? = none ∧ ∀ p, q ≠ .send p)
      (hload : load d' { w with codec := k, spare := image, point := q } < load d w) :
      Nearer d w (w.step d).1 (w.step d).2.1 := by
    rw [hstep]
    exact ⟨hq.1, fun p h => absurd h (hq.2 p), fun _ => hload⟩
  cases hp : w.point with
  | take => exact nearer_of_take hstop hflush hp
  | receive => exact nearer_of_receive hp
  | flushCodec start =>
    have hk : VideoCodec.flush w.codec = some w.codec.flush := rfl
    have hstep : w.step d = (d, { w with codec := w.codec.flush, point := .resetRing start }, none) := by
      simp only [Decoder.step, hp, hk]
    refine goes hstep ⟨rfl, fun _ h => (by cases h)⟩ ?_
    simp [load, toTake, hp, Codec.flush]
  | resetRing start =>
    simp only [Decoder.step, hp]
    refine ⟨rfl, fun _ h => (by cases h), fun _ => ?_⟩
    simp only [load, toTake, hp]
    split <;> omega
  | send p =>
    let k : Codec := { w.codec with
      pending := w.codec.pending.push (Bytes.ofLittleEndian (Bytes.leading 8 p.data), p.pts)
      log := .packet p.pts :: w.codec.log }
    have hk : VideoCodec.send w.codec p = (.ok (), k) := if_neg (Nat.not_lt.2 (hsent p hp))
    have hstep : w.step d = (d, { w with codec := k, point := .receive }, none) := by
      simp only [Decoder.step, hp, hk]
    refine goes hstep ⟨rfl, fun _ h => (by cases h)⟩ ?_
    simp only [load, toTake, k, hp, Fifo.toList_push, List.length_append, List.length_singleton]
    omega
  | place pts =>
    cases hslot : d.ring.slotFor d.stop with
    | free =>
      have hstep : w.step d = (d, { w with point := .convert pts }, none) := by
        simp only [Decoder.step, hp, hslot]
      refine goes hstep ⟨rfl, fun _ h => (by cases h)⟩ ?_
      simp only [load, toTake, hp]
      omega
    | wait =>
      have hstep : w.step d = (d, w, none) := by
        simp only [Decoder.step, hp, hslot]
      rw [hstep]
      exact ⟨hloop, fun _ h => (by rw [hp] at h; cases h), fun hw => by simp [Decoder.isWaiting, hp, hslot] at hw⟩
    | stopped =>
      simp only [PictureRing.slotFor, hstop, Bool.false_eq_true, if_false] at hslot
      split at hslot <;> cases hslot
  | convert pts =>
    have hk : VideoCodec.convert w.codec w.spare = (.ok (), (w.codec.convert w.spare).2.1, w.codec) := rfl
    have hstep : w.step d =
        (d, { w with spare := (w.codec.convert w.spare).2.1, point := .commit pts }, none) := by
      simp only [Decoder.step, hp, hk]
    refine goes hstep ⟨rfl, fun _ h => (by cases h)⟩ ?_
    simp only [load, toTake, hp]
    omega
  | commit pts =>
    simp only [Decoder.step, hp]
    refine ⟨rfl, fun _ h => (by cases h), fun _ => ?_⟩
    simp only [load, toTake, hp]
    omega
  | leaving how | gone how =>
    rw [Decoder.ending?, hp] at hloop
    cases hloop

end TestPattern

theorem Lane.Step.packet_cases {lane : Lane} {stream : StreamInfo} {dest : Packet → Option Lane} {phase phase' : Phase}
    {items items' : List QueueItem} {ns : List Note} (h : Lane.Step lane stream dest phase items ns phase' items')
    {p : Packet} (hp : .packet p ∈ items') :
    .packet p ∈ items ∨ dest p = some lane ∧ .put lane (.packet p) ∈ ns := by
  cases h with
  | quiet | seek | shut => exact .inl hp
  | clear => cases hp
  | mark =>
    rcases List.mem_append.1 hp with hp | hp
    · exact .inl hp
    · cases List.mem_singleton.1 hp
  | route items hdest =>
    rcases List.mem_append.1 hp with hp | hp
    · exact .inl hp
    · cases List.mem_singleton.1 hp
      exact .inr ⟨hdest, List.mem_cons_of_mem _ List.mem_cons_self⟩
  | take => exact .inl (List.mem_cons_of_mem _ hp)

namespace TestPattern

open Source

variable [AudioDecoder D] {x : Session Source Codec D} {s : Source}

theorem Healthy.move (h : Healthy x) (hs : s.Regular) (hc : s.Of x.demuxer.container)
    (hv : x.deck.video = some s.videoStream) (now : Nat) {m : Move} (hm : m ≠ .beginClose) :
    Healthy (x.move now m) := by
  have hlane : x.deck.stream? .video = some s.videoStream := hv
  have queued (p : Packet) (hp : .packet p ∈ (x.move now m).deck.videoQueue.items) : 8 ≤ p.size := by
    rcases (Session.laneStep hlane now m).packet_cases hp with hold | ⟨hdest, hput⟩
    · exact h.queued p hold
    · have hpoint := ((Session.point_of_note hput).2 _ p rfl).2
      exact h.inHand p (by rw [hpoint]; exact List.mem_singleton_self p) hdest
  -- only the two workers touch what the law is about
  cases m with
  | beginClose => exact absurd rfl hm
  | demux =>
    obtain ⟨hdemuxer, hhand⟩ := demuxer_step hs hc hv h.stop h.demuxer now
    have hdeck : (x.demuxer.step now x.deck).1.videoQueue.flushing = x.deck.videoQueue.flushing :=
      (x.demuxer.keeps_step now x.deck).1
    constructor
    case stop =>
      change (x.demuxer.step now x.deck).1.stop = false
      rw [x.demuxer.stop_step, h.stop, Bool.false_or, decide_eq_false_iff_not]
      exact (Nat.ne_of_lt h.demuxer).symm
    case demuxer => exact hdemuxer
    case inHand =>
      intro p hp hl
      rw [x.laneOf_move] at hl
      exact (hhand p hp).elim (fun hold => h.inHand p hold hl) (fun hnew => hnew hl)
    case queued => exact queued
    case sent => exact h.sent
    case flushing => exact hdeck.trans h.flushing
    case decoder => exact h.decoder
  | decode =>
    cases hw : x.decoder with
    | none =>
      have hmove : x.move now .decode = x := by simp only [Session.move, Session.decode, hw]
      rw [hmove]
      exact h
    | some w =>
      have hmove : x.move now .decode = { x with deck := (w.step x.deck).1, decoder := some (w.step x.deck).2.1 } := by
        simp only [Session.move, Session.decode, hw]
      obtain ⟨hloop, hsent, -⟩ := nearer_step h.stop h.flushing (h.decoder w hw) (h.sent w hw)
      have hleaving : w.point.isLeaving = false := by
        have hend := h.decoder w hw
        cases hp : w.point with
        | leaving how =>
          rw [Decoder.ending?, hp] at hend
          cases hend
        | _ => rfl
      rw [hmove] at queued ⊢
      constructor
      case stop =>
        change (w.step x.deck).1.stop = false
        rw [w.stop_step, h.stop, hleaving]
        rfl
      case demuxer => exact h.demuxer
      case inHand =>
        intro p hp hl
        have hsame : (w.step x.deck).1.laneOf = x.deck.laneOf := by
          funext p
          rw [Deck.laneOf, Deck.laneOf, w.step_eq]
        change (w.step x.deck).1.laneOf p = _ at hl
        rw [hsame] at hl
        exact h.inHand p hp hl
      case queued => exact queued
      case sent =>
        intro w' hw' p hp
        cases hw'
        exact h.queued p (hsent p hp)
      case flushing => exact (w.flushing_step x.deck).trans h.flushing
      case decoder =>
        intro w' hw'
        cases hw'
        exact hloop
  | takeAudio => exact ⟨h.stop, h.demuxer, h.inHand, h.queued, h.sent, h.flushing, h.decoder⟩
  | requestSeek target => exact ⟨h.stop, h.demuxer, h.inHand, h.queued, h.sent, h.flushing, h.decoder⟩
  | setPaused on => exact ⟨h.stop, h.demuxer, h.inHand, h.queued, h.sent, h.flushing, h.decoder⟩
  | refresh master =>
    simp only [Session.move]
    split
    · exact h
    · exact ⟨h.stop, h.demuxer, h.inHand, h.queued, h.sent, h.flushing, h.decoder⟩

end TestPattern

theorem Session.laneOf_run [Container C K] [VideoCodec K] [AudioDecoder D] (x : Session C K D)
    (moves : List (Nat × Move)) : (x.run moves).deck.laneOf = x.deck.laneOf := by
  induction moves generalizing x with
  | nil => rfl
  | cons m moves ih => exact (ih (x.move m.1 m.2)).trans (x.laneOf_move m.1 m.2)

theorem SlotStep.not_applied {p q : DemuxPoint} {pending pending' : Option Float} {ns : List Note}
    (h : SlotStep p pending q pending' ns) (hp : ∀ target, p ≠ .seek target) : ∀ n ∈ ns, n.applied? = none := by
  cases h with
  | find target =>
    intro n hn
    rw [List.mem_singleton.1 hn]
    rfl
  | @ask target => exact absurd rfl (hp target)
  | act _ _ silent | other _ _ silent => exact fun n hn => (silent n hn).2.2
  | retire => exact nofun

theorem Session.not_applied_of_ne_demux [Container C K] [VideoCodec K] [AudioDecoder D] (x : Session C K D)
    {m : Move} (hm : m ≠ .demux) : ∀ n ∈ x.notes m, n.applied? = none := by
  obtain ⟨-, ⟨target, rfl, -⟩ | ⟨-, silent⟩⟩ := x.move_slot 0 hm
  · intro n hn
    rw [List.mem_singleton.1 hn]
    rfl
  · exact fun n hn => (silent n hn).2.2

/-- Whose epoch it is: that of the seek that was applied last, once its turn to shut the ring has come. -/
def Phase.Aims (applied : Option Ticks) (e : Epoch) : Phase → Prop
  | .settled | .toMark _ => e.seek = applied
  | .toClear us | .toShut us => applied = some us

theorem Phase.Aims.step {applied : Option Ticks} {e : Epoch} {stream : StreamInfo} {dest : Packet → Option Lane}
    {phase phase' : Phase} {items items' : List QueueItem} {ns : List Note} (h : phase.Aims applied e)
    (hs : Lane.Step .video stream dest phase items ns phase' items') (hns : ∀ n ∈ ns, n.applied? = none) :
    phase'.Aims applied (e.after dest ns) := by
  cases hs with
  | quiet phase items ha =>
    have hseek : (e.after dest ns).seek = e.seek := congrArg Timeline.seek (e.after_apart ha).1
    cases phase with
    | settled | toMark us => exact hseek.trans h
    | toClear us | toShut us => exact h
  | seek target us items => cases hns _ List.mem_cons_self
  | clear us items => exact h
  | shut us items => exact Eq.symm h
  | mark us items => exact h
  | @route p items hp =>
    have he : (e.after dest [.routed p, .put .video (.packet p)]).seek = e.seek := by
      simp [Epoch.after, Note.epoch, hp]
    exact he.trans h
  | take phase i items => cases phase <;> exact h

namespace TestPattern

open Source

variable [AudioDecoder D] {s : Source}

/-- **Whose epoch it is.** -/
theorem Source.Regular.aims_run (hs : s.Regular) (now : Nat) (config : Config) (audio : Option (StreamInfo × D))
    (codec : Codec) (moves : List (Nat × Move)) :
    let start : Session Source Codec D := Player.sessionOf now config s audio (some (s.videoStream, codec))
    ((start.run moves).demuxer.point.phase .video).Aims ((lastApplied (start.chronicle moves)).map seekMicros)
      (Epoch.after start.deck.laneOf {} (start.chronicle moves)) := by
  intro start
  induction moves using List.reverseRecOn with
  | nil => rfl
  | append_singleton moves m ih =>
    have hof : s.Of (start.run moves).demuxer.container := (hs.placed_run now config audio codec moves).of
    have hv : (start.run moves).deck.stream? .video = some s.videoStream := start.stream_run moves .video
    have hdest : (start.run moves).deck.laneOf = start.deck.laneOf := start.laneOf_run moves
    rw [Session.run_concat, Session.chronicle_concat, Epoch.after_append]
    generalize start.run moves = x at hof hv hdest ih ⊢
    by_cases hseek : m.2 = .demux ∧ ∃ target, x.demuxer.point = .seek target
    · obtain ⟨hm, target, hp⟩ := hseek
      have hnotes : x.notes m.2 = [.applied target, .sought (seekMicros target)] := by
        simp only [hm, Session.notes, Demuxer.notes, hp, hof.seek_eq hs]
      have hphase : (x.move m.1 m.2).demuxer.point.phase .video = .toClear (seekMicros target) := by
        simp only [hm, Session.move, Session.demux, Demuxer.step, hp, hof.seek_eq hs]
        exact SeekStage.phase_first hv _
      rw [hnotes, hphase]
      simp [Phase.Aims, lastApplied, Note.applied?, List.filterMap_cons]
    · have step := Session.laneStep hv m.1 m.2
      rw [hdest] at step
      have hns : ∀ n ∈ x.notes m.2, n.applied? = none := by
        by_cases hm : m.2 = .demux
        · rw [hm]
          exact (x.demuxer.slotStep 0 x.deck).not_applied (fun target hp => hseek ⟨hm, target, hp⟩)
        · exact x.not_applied_of_ne_demux hm
      rw [lastApplied_append_of_none hns]
      exact ih.step step hns

theorem healthy_run (hs : s.Regular) (now : Nat) (config : Config) (audio : Option (StreamInfo × D)) (codec : Codec)
    (moves : List (Nat × Move)) :
    let start : Session Source Codec D := Player.sessionOf now config s audio (some (s.videoStream, codec))
    (start.run moves).deck.stop = false → Healthy (start.run moves) := by
  intro start
  induction moves using List.reverseRecOn with
  | nil =>
    intro _
    have hdecoder : (start.run []).decoder = some { codec, stream := s.videoStream } := rfl
    constructor
    case stop | flushing => rfl
    case demuxer => exact Nat.lt_succ_of_lt (Nat.lt_succ_self 1)
    case inHand | queued => exact fun _ h => (by cases h)
    case sent =>
      intro w hw
      rw [hdecoder] at hw
      cases hw
      exact fun _ h => (by cases h)
    case decoder =>
      intro w hw
      rw [hdecoder] at hw
      cases hw
      rfl
  | append_singleton moves m ih =>
    rw [Session.run_concat]
    intro hstop
    have hbefore : (start.run moves).deck.stop = false := by
      by_contra hs
      rw [Session.stop_move (Bool.not_eq_false _ ▸ hs)] at hstop
      cases hstop
    have hm : m.2 ≠ .beginClose := by
      intro hm
      rw [hm] at hstop
      cases hstop
    exact (ih hbefore).move hs (hs.placed_run now config audio codec moves).of (start.stream_run moves .video) m.1 hm

end TestPattern
end Playhead
