import Playhead.Proofs.BackPressure
import Playhead.Proofs.Rounds
import Playhead.Proofs.Unwinding
/-!
# PlayingOut — a medium is played to its end, in so many rounds

Demuxer, decode worker and driver wait for one another: for room in the queue, for an item, for a slot.  They never all
wait.  A round in which a picture is near the driver takes one picture, or a frame less is to come; a round in which
none is near begins with an empty queue, and so the demuxer reads; and when there is nothing more to read, the end is
marked (`Session.Playing.round`).  So there are no more rounds than results to be read and frames to be shown, and
two more (`Session.rounds_play_out`).
-/
namespace Playhead

variable {C K D : Type}

/-! ## What a run brings to every state -/

theorem Demuxer.keeps_step [Container C K] (now : Nat) (d : Deck) (w : Demuxer C) :
    (w.step now d).1.videoQueue.flushing = d.videoQueue.flushing ∧
      (w.step now d).1.ring.capacity = d.ring.capacity := by
  cases hp : w.point with
  | apply target us stage =>
    simp only [step, hp]
    cases stage with
    | markAudio =>
      simp only [SeekStage.act]
      cases d.audio <;> exact ⟨rfl, rfl⟩
    | markVideo =>
      simp only [SeekStage.act]
      cases d.video <;> exact ⟨rfl, rfl⟩
    | _ => exact ⟨rfl, rfl⟩
  | retire target =>
    simp only [step, hp]
    rw [d.completeSeek_eq]
    exact ⟨rfl, rfl⟩
  | route p =>
    simp only [step, hp, Deck.route]
    split
    · exact ⟨rfl, rfl⟩
    · split <;> exact ⟨rfl, rfl⟩
  | markEnded =>
    simp only [step, hp]
    rw [d.markEnded_eq]
    exact ⟨rfl, rfl⟩
  | seek target | read =>
    simp only [step, hp]
    split <;> exact ⟨rfl, rfl⟩
  | _ =>
    simp only [step, hp]
    exact ⟨trivial, trivial⟩

theorem PacketQueue.ended_of_take {q : PacketQueue} {stop : Bool}
    (h : (q.take stop).1 = .flushed ∨ (q.take stop).1 = .stopped) : stop = true ∨ q.flushing = true := by
  cases stop with
  | true => exact .inl rfl
  | false =>
    right
    cases hi : q.items with
    | nil =>
      rw [(take_of_nil hi).1] at h
      cases hf : q.flushing with
      | true => rfl
      | false => rcases h with h | h <;> simp [hf] at h
    | cons i items =>
      rw [(take_of_cons hi).1] at h
      rcases h with h | h <;> cases h

namespace Decoder

variable [VideoCodec K]

theorem flushing_step (d : Deck) (w : Decoder K) : (w.step d).1.videoQueue.flushing = d.videoQueue.flushing := by
  by_cases hp : w.point = .take
  · rw [videoQueue_step_take hp, PacketQueue.flushing_take]
  · rw [videoQueue_step hp]

theorem capacity_step (d : Deck) (w : Decoder K) : (w.step d).1.ring.capacity = d.ring.capacity := by
  cases hp : w.point with
  | commit pts =>
    simp only [step, hp]
    exact (d.ring.commit_size pts w.spare).1
  | resetRing start =>
    simp only [step, hp]
    rfl
  | take | flushCodec start | send p | receive | place pts | convert pts =>
    simp only [step, hp]
    split <;> rfl
  | leaving how | gone how =>
    simp only [step, hp]

theorem finished_step {d : Deck} {w : Decoder K} (h : (w.step d).2.1.ending? = some .finished) :
    w.ending? = some .finished ∨ d.stop = true ∨ d.videoQueue.flushing = true := by
  cases hp : w.point with
  | take =>
    simp only [step, hp] at h
    cases ht : (d.videoQueue.take d.stop).1 with
    | item i =>
      rw [ht] at h
      cases i <;> cases h
    | flushed => exact .inr (PacketQueue.ended_of_take (.inl ht))
    | stopped => exact .inr (PacketQueue.ended_of_take (.inr ht))
    | nothing =>
      simp only [ht, ending?, hp] at h
      cases h
  | place pts =>
    simp only [step, hp] at h
    cases hs : d.ring.slotFor d.stop with
    | free =>
      simp only [hs, ending?] at h
      cases h
    | wait =>
      simp only [hs, ending?, hp] at h
      cases h
    | stopped =>
      refine .inr (.inl ?_)
      unfold PictureRing.slotFor at hs
      split at hs
      · assumption
      · split at hs <;> cases hs
  | receive =>
    simp only [step, hp] at h
    split at h
    · next f k hr =>
      have ha := (advance_cases { w with codec := k } f).2
      change ending? (({ w with codec := k } : Decoder K).advance f) = _ at h
      generalize ({ w with codec := k } : Decoder K).advance f = w' at ha h
      rcases ha with ha | ⟨pts, ha⟩ <;> simp only [ending?, ha] at h <;> cases h
    · cases h
    · cases h
    · cases h
  | flushCodec start | send p | convert pts =>
    simp only [step, hp] at h
    split at h <;> cases h
  | resetRing start | commit pts =>
    simp only [step, hp] at h
    cases h
  | leaving how =>
    simp only [step, hp, ending?] at h ⊢
    exact .inl h
  | gone how =>
    simp only [step, hp, ending?] at h ⊢
    exact .inl h

end Decoder

theorem PictureRing.refresh_none (r : PictureRing) (threshold : Float) :
    (r.refresh none threshold).2.size = r.size - 1 ∧ (r.refresh none threshold).2.capacity = r.capacity := by
  unfold refresh
  split
  · next he =>
    have hz : r.size = 0 := beq_iff_eq.1 he
    exact ⟨by rw [hz], rfl⟩
  · exact ⟨rfl, rfl⟩

namespace Session

variable [Container C K] [VideoCodec K] [AudioDecoder D]

/-- A queue is ended, and a worker leaves its loop, only in a session that ends; and what is not played leaves nothing
behind. -/
structure InOrder (s : Session C K D) : Prop where
  audio : s.deck.audio = none
  flushing : s.deck.videoQueue.flushing = true → s.deck.stop = true
  finished : ∀ w ∈ s.decoder, w.ending? = some .finished → s.deck.stop = true
  idle : s.deck.audioQueue.isIdle = true
  capacity : 0 < s.deck.ring.capacity

theorem InOrder.move {s : Session C K D} (h : s.InOrder) (now : Nat) (m : Move) : (s.move now m).InOrder := by
  have audio : (s.move now m).deck.audio = none := (s.move_streams now m).2.trans h.audio
  have idle : (s.move now m).deck.audioQueue.isIdle = true :=
    (s.touch now m .audio).idle (fun hn => hn h.audio) h.idle
  cases m with
  | demux =>
    obtain ⟨hf, hc⟩ := s.demuxer.keeps_step now s.deck
    have up : s.deck.stop = true → (s.demuxer.step now s.deck).1.stop = true := by
      intro hstop
      rw [s.demuxer.stop_step, hstop, Bool.true_or]
    refine ⟨audio, fun hq => up (h.flushing (hf ▸ hq)), fun w hw he => up (h.finished w hw he), idle, ?_⟩
    change 0 < (s.demuxer.step now s.deck).1.ring.capacity
    rw [hc]
    exact h.capacity
  | decode =>
    cases hw : s.decoder with
    | none =>
      simp only [Session.move, decode, hw]
      exact h
    | some w =>
      have up : s.deck.stop = true → (w.step s.deck).1.stop = true := by
        intro hstop
        rw [w.stop_step, hstop, Bool.true_or]
      have hf := w.flushing_step s.deck
      have hc := w.capacity_step s.deck
      simp only [Session.move, decode, hw] at audio idle ⊢
      refine ⟨audio, fun hq => up (h.flushing (hf ▸ hq)), fun v hv he => up ?_, idle, ?_⟩
      · cases hv
        rcases Decoder.finished_step he with he | hstop | hq
        · exact h.finished w hw he
        · exact hstop
        · exact h.flushing hq
      · change 0 < (w.step s.deck).1.ring.capacity
        rw [hc]
        exact h.capacity
  | refresh master =>
    simp only [Session.move] at audio idle ⊢
    split
    · exact h
    · refine ⟨h.audio, h.flushing, h.finished, h.idle, ?_⟩
      have hc : (s.deck.ring.refresh master s.deck.config.threshold).2.capacity = s.deck.ring.capacity :=
        congrArg Array.size (s.deck.ring.refresh_keeps master s.deck.config.threshold).1
      change 0 < (s.deck.ring.refresh master s.deck.config.threshold).2.capacity
      rw [hc]
      exact h.capacity
  | beginClose => exact ⟨audio, fun _ => rfl, fun _ _ _ => rfl, idle, h.capacity⟩
  | takeAudio | requestSeek target | setPaused on => exact ⟨audio, h.flushing, h.finished, idle, h.capacity⟩

theorem inOrder_run (now : Nat) (config : Config) (container : C) (video : Option (StreamInfo × K))
    (moves : List (Nat × Move)) :
    ((Player.sessionOf now config container none video : Session C K D).run moves).InOrder := by
  refine run_keeps (P := fun s _ => s.InOrder) (fun s _ now m h => h.move now m) _ [] ?_ moves
  refine ⟨rfl, nofun, fun w hw he => ?_, rfl, ?_⟩
  · obtain ⟨v, -, rfl⟩ := Option.map_eq_some_iff.1 hw
    cases he
  · change 0 < (PictureRing.new config.pictureCapacity).capacity
    rw [PictureRing.capacity_new]
    exact Nat.lt_of_lt_of_le Nat.one_pos (Nat.le_max_right _ _)

/-! ## A round -/

/-- The session plays, and nobody seeks, pauses or stops: `items` is what the demuxer will read, and `n` how many frames
the decode worker will receive. -/
structure Playing (stream : StreamInfo) (s : Session C K D) (w : Decoder K) (items : List (Outcome (Option Packet)))
    (n : Nat) : Prop where
  video : s.deck.video = some stream
  audio : s.deck.audio = none
  master : s.master = .video
  paused : s.deck.paused = false
  pending : s.deck.pendingSeek = none
  idle : s.deck.audioQueue.isIdle = true
  point : s.demuxer.point = .top
  decoder : s.decoder = some w
  reads : Container.Reads s.demuxer.container items
  going : w.Going s.deck (items.filterMap (videoItem? stream)) n

/-- The decode worker waits, or has a picture near the driver. -/
def Settled (d : Deck) (w : Decoder K) : Prop :=
  Decoder.near d w = 0 → w.point = .take ∧ d.videoQueue.items = [] ∧ d.videoQueue.busy = false

structure PlayedOut (s : Session C K D) : Prop where
  exhausted : Container.Exhausted s.demuxer.container
  queued : ∀ lane, (s.deck.queue lane).items = []
  pictures : s.deck.ring.pictures = []
  ended : s.deck.ended = true

variable {stream : StreamInfo} {s : Session C K D} {w : Decoder K} {items : List (Outcome (Option Packet))} {n : Nat}

omit [AudioDecoder D] in
theorem Playing.behind (h : s.Playing stream w items n) {d : Deck} {c : C} {items' : List (Outcome (Option Packet))}
    (hd : d = { s.deck with ended := d.ended, videoQueue := d.videoQueue })
    (hflushing : d.videoQueue.flushing = false) (hcounted : d.videoQueue.Counted)
    (hitems : d.videoQueue.items ++ items'.filterMap (videoItem? stream) =
      s.deck.videoQueue.items ++ items.filterMap (videoItem? stream))
    (hreads : Container.Reads c items') : (s.withDemuxer d ⟨c, .top⟩).Playing stream w items' n := by
  have hy := h.going.yields
  rw [← hitems] at hy
  rw [hd] at hflushing hcounted hy ⊢
  exact ⟨h.video, h.audio, h.master, h.paused, h.pending, h.idle, rfl, h.decoder, hreads,
    ⟨h.going.stop, hflushing, hcounted, h.going.capacity, h.going.inLoop, hy⟩⟩

omit [AudioDecoder D] in
theorem Playing.packet {c : C} {p : Packet} (h : s.Playing stream w (.ok (some p) :: items) n)
    (hreads : Container.Reads c items) :
    (s.withDemuxer ({ s.deck with ended := false }.route p) ⟨c, .top⟩).Playing stream w items n ∧
      ({ s.deck with ended := false }.route p).ring = s.deck.ring := by
  have hroute : { s.deck with ended := false }.route p =
      { s.deck with
        ended := false
        videoQueue := if p.stream = stream.index then s.deck.videoQueue.put (.packet p) else s.deck.videoQueue } := by
    unfold Deck.route
    by_cases hp : p.stream = stream.index
    · rw [if_pos (by rw [h.video, hp]; rfl), if_pos hp]
    · have hv : s.deck.video.map (·.index) ≠ some p.stream := by
        rw [h.video]
        exact fun hc => hp (Option.some.inj hc).symm
      have ha : s.deck.audio.map (·.index) ≠ some p.stream := by
        rw [h.audio]
        exact nofun
      rw [if_neg hv, if_neg ha, if_neg hp]
  rw [hroute]
  refine ⟨h.behind rfl ?_ ?_ ?_ hreads, rfl⟩
  · simp only
    split <;> exact h.going.flushing
  · simp only
    split
    · exact PacketQueue.counted_put h.going.counted _
    · exact h.going.counted
  · by_cases hp : p.stream = stream.index <;> simp [videoItem?, hp]

omit [AudioDecoder D] in
/-- A pass that read no packet marks the end if nothing is left. -/
theorem Playing.noPacket (h : s.Playing stream w items n) {c : C} (items' : List (Outcome (Option Packet)))
    (hitems : items'.filterMap (videoItem? stream) = items.filterMap (videoItem? stream))
    (hreads : Container.Reads c items') :
    let d := if s.deck.isDrained then { s.deck with ended := true } else s.deck
    (s.withDemuxer d ⟨c, .top⟩).Playing stream w items' n ∧ d.ring = s.deck.ring ∧
      (s.deck.isDrained = true → d.ended = true) := by
  cases hdrained : s.deck.isDrained with
  | true => exact ⟨h.behind rfl h.going.flushing h.going.counted (by rw [hitems]; rfl) hreads, rfl, fun _ => rfl⟩
  | false => exact ⟨h.behind rfl h.going.flushing h.going.counted (by rw [hitems]; rfl) hreads, rfl, nofun⟩

omit [AudioDecoder D] in
/-- **A pass of the demuxer takes nothing away from what is to come**; and if nothing is queued it makes a read, and
marks the end if there is nothing to read and nothing left. -/
theorem Playing.pass (h : s.Playing stream w items n) (now : Nat) :
    ∃ items', (s.passed now).Playing stream w items' n ∧ (s.passed now).deck.ring = s.deck.ring ∧
      items'.length ≤ items.length ∧
      (s.deck.videoQueue.items = [] → items'.length < items.length ∨
        (items = [] ∧ items' = []) ∧ (s.deck.isDrained = true → (s.passed now).deck.ended = true)) := by
  have hw : s.demuxer = ⟨s.demuxer.container, .top⟩ := by rw [← h.point]
  have passed : s.passed now =
      s.withDemuxer ((⟨s.demuxer.container, .top⟩ : Demuxer C).turn now s.deck).1
        ((⟨s.demuxer.container, .top⟩ : Demuxer C).turn now s.deck).2.1 := by rw [← hw]; rfl
  have reads := h.reads
  generalize s.demuxer.container = c at hw passed reads
  have hread : (Container.read c).1 ≠ .died := by
    cases items with
    | nil =>
      rw [(Container.Exhausted.read reads).1]
      exact nofun
    | cons r items =>
      rw [reads.1]
      exact reads.2.1
  rw [passed]
  rcases Demuxer.turn_cases now h.going.stop h.pending h.audio hread with
    ⟨hroom, hdeck, hworker⟩ | ⟨-, hworker, ⟨p, hp, hdeck⟩ | ⟨hp, hdeck⟩⟩
  · -- the queue is over its limit, and so it is not empty
    rw [hdeck, hworker]
    refine ⟨items, h.behind rfl h.going.flushing h.going.counted rfl reads, rfl, Nat.le_refl _, fun hi => ?_⟩
    have hbytes : s.deck.videoQueue.bytes = 0 := by
      rw [h.going.counted, hi]
      rfl
    simp [Deck.videoHasRoom, PacketQueue.hasRoom, hbytes] at hroom
  · rw [hdeck, hworker]
    cases items with
    | nil =>
      rw [(Container.Exhausted.read reads).1] at hp
      cases hp
    | cons r rest =>
      obtain ⟨hr, -, hrest⟩ := reads
      rw [hp] at hr
      subst hr
      obtain ⟨hplaying, hring⟩ := h.packet hrest
      exact ⟨rest, hplaying, hring, Nat.le_succ _, fun _ => .inl (Nat.lt_succ_self _)⟩
  · rw [hdeck, hworker]
    cases items with
    | nil =>
      obtain ⟨hplaying, hring, hended⟩ := h.noPacket [] rfl (Container.Exhausted.read reads).2
      exact ⟨[], hplaying, hring, Nat.le_refl _, fun _ => .inr ⟨⟨rfl, rfl⟩, hended⟩⟩
    | cons r rest =>
      obtain ⟨hr, -, hrest⟩ := reads
      have hnone : videoItem? stream r = none := by
        rcases r with (_ | p) | e | _
        · rfl
        · exact absurd hr (hp p)
        · rfl
        · rfl
      obtain ⟨hplaying, hring, -⟩ := h.noPacket rest (by rw [List.filterMap_cons, hnone]) hrest
      exact ⟨rest, hplaying, hring, Nat.le_succ _, fun _ => .inl (Nat.lt_succ_self _)⟩

theorem Playing.update (h : s.Playing stream w items n) {d : Deck} {w' : Decoder K} {n' : Nat}
    (hd : d = { s.deck with videoQueue := d.videoQueue, ring := d.ring })
    (hgoing : w'.Going d (items.filterMap (videoItem? stream)) n') (now : Nat) :
    let u := (s.withDecoder d w').move now (.refresh ((s.withDecoder d w').masterReading now))
    u.Playing stream w' items n' ∧ u.deck.videoQueue = d.videoQueue ∧ u.deck.ended = s.deck.ended ∧
      u.deck.ring.size = d.ring.size - 1 := by
  have hmaster : (s.withDecoder d w').masterReading now = none := by
    unfold masterReading withDecoder
    rw [h.master]
  have hpaused : d.paused = false := by
    rw [hd]
    exact h.paused
  obtain ⟨hsize, hcapacity⟩ := d.ring.refresh_none d.config.threshold
  have hu : (s.withDecoder d w').move now (.refresh ((s.withDecoder d w').masterReading now)) =
      s.withDecoder { d with ring := (d.ring.refresh none d.config.threshold).2 } w' := by
    rw [hmaster]
    exact if_neg (Bool.eq_false_iff.1 hpaused)
  rw [hu]
  generalize (d.ring.refresh none d.config.threshold).2 = ring at hsize hcapacity
  have hended : d.ended = s.deck.ended := by rw [hd]
  refine ⟨?_, rfl, hended, hsize⟩
  have room : 0 < ring.capacity := by
    rw [hcapacity]
    exact hgoing.capacity
  have going : w'.Going { d with ring } (items.filterMap (videoItem? stream)) n' :=
    ⟨hgoing.stop, hgoing.flushing, hgoing.counted, room, hgoing.inLoop, hgoing.yields⟩
  rw [hd] at going ⊢
  exact ⟨h.video, h.audio, h.master, h.paused, h.pending, h.idle, h.point, rfl, h.reads, going⟩

omit [AudioDecoder D] in
/-- A decode worker that waits while nothing is to be read and no picture is near will receive no frame, and nothing is
left anywhere. -/
theorem Playing.drained (h : s.Playing stream w [] n) (htake : w.point = .take) (hempty : s.deck.videoQueue.items = [])
    (hbusy : s.deck.videoQueue.busy = false) (hnear : Decoder.near s.deck w = 0) : n = 0 ∧ s.deck.isDrained = true := by
  have hy := h.going.yields
  simp only [Decoder.Yields, htake, hempty] at hy
  have hring : s.deck.ring.size = 0 := (Nat.add_eq_zero_iff.1 hnear).1
  have hidle := s.deck.videoQueue.isIdle_iff.2 ⟨hempty, hbusy⟩
  refine ⟨?_, ?_⟩
  · cases hy
    rfl
  · simp [Deck.isDrained, hidle, h.idle, PictureRing.isEmpty, hring]

omit [AudioDecoder D] in
theorem Playing.playedOut (h : s.Playing stream w [] n) (hitems : s.deck.videoQueue.items = [])
    (hring : s.deck.ring.size = 0) (hended : s.deck.ended = true) : s.PlayedOut := by
  refine ⟨h.reads, fun lane => ?_, ?_, hended⟩
  · cases lane with
    | video => exact hitems
    | audio => exact (s.deck.audioQueue.isIdle_iff.1 h.idle).1
  · rw [← List.length_eq_zero_iff, PictureRing.length_pictures, hring]

/-- **A round takes nothing away from what is to come; and if the decode worker was waiting, it brings the session
nearer to the end, or to it.** -/
theorem Playing.round (h : s.Playing stream w items n) (now : Nat) :
    ∃ u w' items' n', s.Round now u ∧ u.Playing stream w' items' n' ∧ Settled u.deck w' ∧
      items'.length ≤ items.length ∧ Decoder.near u.deck w' + n' ≤ Decoder.near s.deck w + n ∧
      (Settled s.deck w →
        items'.length + (Decoder.near u.deck w' + n') < items.length + (Decoder.near s.deck w + n) ∨ u.PlayedOut) := by
  obtain ⟨items', hpassed, hring, hlen, hread⟩ := h.pass now
  obtain ⟨d, w', n', hdecodes, hwaits, hgoing, hpasses, hd⟩ := hpassed.going.decodes
  obtain ⟨hplaying, hqueue, hended, hsize⟩ := hpassed.update hd hgoing now
  have round := Round.mk h.decoder hdecodes
  generalize ((s.passed now).withDecoder d w').move now (.refresh (((s.passed now).withDecoder d w').masterReading now))
    = u at hplaying hqueue hended hsize round
  have before : Decoder.near (s.passed now).deck w = Decoder.near s.deck w := by rw [Decoder.near, hring]; rfl
  have between : Decoder.near d w' = d.ring.size + w'.point.inHand := rfl
  have after : Decoder.near u.deck w' = d.ring.size - 1 + w'.point.inHand := by rw [Decoder.near, hsize]
  have waiting := hgoing.waiting hwaits
  unfold Decoder.Passes at hpasses
  refine ⟨u, w', items', n', round, hplaying, fun hz => ?_, hlen, by omega, fun hsettled => ?_⟩
  · rcases waiting with ⟨htake, -⟩ | ⟨hhand, -⟩
    · rw [hqueue]
      exact htake
    · omega
  by_cases hz : Decoder.near s.deck w = 0
  · -- no picture is near, and so the queue was empty and the demuxer has read
    obtain ⟨htake, hempty, hbusy⟩ := hsettled hz
    rcases hread hempty with hless | ⟨⟨rfl, rfl⟩, hend⟩
    · left
      omega
    · obtain ⟨rfl, hdrained⟩ := h.drained htake hempty hbusy hz
      rcases waiting with ⟨⟨-, hitems, -⟩, -⟩ | ⟨-, hpos⟩
      · exact .inr (hplaying.playedOut (hqueue ▸ hitems) (by omega) (hended.trans (hend hdrained)))
      · omega
  · -- a picture is near: the update takes one, or a frame was received and dropped on the way
    left
    omega

/-- A session whose decode worker was waiting is played out in as many rounds as results are to be read and frames to be
shown, and one more. -/
theorem Playing.rounds (h : s.Playing stream w items n) (hsettled : Settled s.deck w) (instants : Nat → Nat) :
    ∃ k ≤ items.length + (Decoder.near s.deck w + n) + 1, ∃ t, Rounds instants s k t ∧ t.PlayedOut := by
  induction hm : items.length + (Decoder.near s.deck w + n) using Nat.strongRecOn
    generalizing s w items n instants with
  | ind m less =>
    obtain ⟨u, w', items', n', hround, hplaying, hsettled', -, -, hprogress⟩ := h.round (instants 0)
    rcases hprogress hsettled with hless | hout
    · obtain ⟨k, hk, t, hrounds, hout⟩ := less _ (by omega) hplaying hsettled' (fun i => instants (i + 1)) rfl
      exact ⟨k + 1, by omega, t, .next hround hrounds, hout⟩
    · exact ⟨1, Nat.le_add_left _ _, u, .next hround (.none _ u), hout⟩

theorem Round.of_turn {u : Session C K D} {now : Nat} {w : Demuxer C}
    (ht : w.turn now s.deck = s.demuxer.turn now s.deck) (h : (s.withDemuxer s.deck w).Round now u) :
    s.Round now u := by
  have hp : (s.withDemuxer s.deck w).passed now = s.passed now := by
    simp only [passed, withDemuxer, ht]
  cases h with
  | mk hw hdecodes =>
    rw [hp] at hdecodes ⊢
    exact .mk hw hdecodes

/-- Nobody stops, pauses or seeks, the pictures are their own clock, and the demuxer begins a pass. -/
structure Undisturbed (s : Session C K D) : Prop where
  stop : s.deck.stop = false
  paused : s.deck.paused = false
  pending : s.deck.pendingSeek = none
  master : s.master = .video
  boundary : s.demuxer.point = .top ∨ s.demuxer.point = .start

/-- **A medium is played to its end in a bounded number of rounds.**  From every state of every run of a session without
audio that is not disturbed, whatever the limits and the capacity: let `items` be what reading the container will give,
packets of any stream, failures and ends that are not the last one, before the end that stays; and let `n` be the
number of the frames that the codec, which never fails, will yield for what it holds, for what is queued and for what
will be read.  Then within the rounds that two for every such item, one for every queued one, one for every picture
in the ring or on its way there, one for every frame, and two more are, nothing is left to read, nothing queued, no
picture waits, and the medium counts as ended.  There is but one state that the rounds lead to. -/
theorem rounds_play_out (now : Nat) (config : Config) (container : C) (stream : StreamInfo) (codec : K)
    (moves : List (Nat × Move)) (w : Decoder K) (items : List (Outcome (Option Packet))) (n : Nat) :
    let s : Session C K D := (Player.sessionOf now config container none (some (stream, codec))).run moves
    s.Undisturbed → s.decoder = some w → Container.Reads s.demuxer.container items →
    w.Yields (s.deck.videoQueue.items ++ items.filterMap (videoItem? stream)) n →
    ∀ instants : Nat → Nat,
      ∃ k ≤ 2 * items.length + s.deck.videoQueue.items.length + (s.deck.ring.size + w.point.inHand + n) + 2,
        ∃ t, s.Rounds instants k t ∧ t.PlayedOut ∧ (∀ t', s.Rounds instants k t' → t' = t) ∧ s.Reaches t := by
  intro s calm hw hreads hyields instants
  have order : s.InOrder := inOrder_run now config container (some (stream, codec)) moves
  have hvideo : s.deck.video = some stream :=
    (Player.sessionOf now config container none (some (stream, codec)) : Session C K D).stream_run moves .video
  have hcounted : s.deck.videoQueue.Counted :=
    (pressureLaw_run (D := D) now config container none (some (stream, codec)) moves .video).counted
  have running : s.deck.stop ≠ true := Bool.eq_false_iff.1 calm.stop
  have hflushing : s.deck.videoQueue.flushing = false := Bool.eq_false_iff.2 (fun hf => running (order.flushing hf))
  have hloop : w.ending? = none := by
    cases hp : w.point with
    | leaving how | gone how =>
      simp only [Decoder.Yields, hp] at hyields
      exact absurd (order.finished w hw (by simp only [Decoder.ending?, hp, hyields])) running
    | _ => simp only [Decoder.ending?, hp]
  have going : w.Going s.deck (items.filterMap (videoItem? stream)) n :=
    ⟨calm.stop, hflushing, hcounted, order.capacity, hloop, hyields⟩
  have playing : (s.withDemuxer s.deck ⟨s.demuxer.container, .top⟩).Playing stream w items n :=
    ⟨hvideo, order.audio, calm.master, calm.paused, calm.pending, order.idle, rfl, hw, hreads, going⟩
  have turn : (⟨s.demuxer.container, .top⟩ : Demuxer C).turn (instants 0) s.deck =
      s.demuxer.turn (instants 0) s.deck := by
    rcases calm.boundary with hp | hp
    · rw [← hp]
    · rw [← Demuxer.turn_start hvideo, ← hp]
  obtain ⟨u, w', items', n', hround, hplaying, hsettled, hlen, hnear, -⟩ := playing.round (instants 0)
  have first : s.Round (instants 0) u := .of_turn turn hround
  obtain ⟨k, hk, t, hrounds, hout⟩ := hplaying.rounds hsettled (fun i => instants (i + 1))
  have all : s.Rounds instants (k + 1) t := .next first hrounds
  have bound : k + 1 ≤
      2 * items.length + s.deck.videoQueue.items.length + (s.deck.ring.size + w.point.inHand + n) + 2 := by
    change Decoder.near u.deck w' + n' ≤ s.deck.ring.size + w.point.inHand + n at hnear
    omega
  exact ⟨k + 1, bound, t, all, hout, fun t' h => h.unique all, all.reaches⟩

end Session

/-! ## A script -/

namespace Script.Codec

variable {items : List QueueItem} {m : Nat}

theorem yields_frames {frames : List Frame} (hok : ∀ f ∈ frames, f.conversionFault = none) {k : Codec}
    (hk : k.pending = frames.map .frame)
    (h : ∀ current, VideoCodec.Yields ({ k with pending := [], current } : Codec) false items m) :
    VideoCodec.Yields k true items (frames.length + m) := by
  induction frames generalizing k with
  | nil =>
    have hr : VideoCodec.receive k = (.ok none, k) := by
      change k.receive = _
      simp only [receive, hk, List.map_nil]
    rw [List.length_nil, Nat.zero_add]
    have hnext := h k.current
    rw [← List.map_nil (f := Yield.frame), ← hk] at hnext
    exact .done hr hnext
  | cons f frames ih =>
    have hf := hok f List.mem_cons_self
    have hrest := fun g hg => hok g (List.mem_cons_of_mem f hg)
    have hr : VideoCodec.receive k =
        (.ok (some { width := f.width, height := f.height, timestamp := f.timestamp, repeats := f.repeats }),
          { k with pending := frames.map .frame, current := some f }) := by
      change k.receive = _
      simp only [receive, hk, List.map_cons]
    have hc : ∀ buffer, VideoCodec.convert ({ k with pending := frames.map .frame, current := some f } : Codec) buffer =
        (.ok (), buffer.paint f.width f.height f.color,
          { k with pending := frames.map .frame, current := some f }) := by
      intro buffer
      change convert _ buffer = _
      simp only [convert, hf]
    have hnext : VideoCodec.Yields ({ k with pending := frames.map .frame, current := some f } : Codec) true items
        (frames.length + m) := ih hrest rfl h
    rw [List.length_cons, Nat.add_right_comm]
    exact .frame hr hnext (fun buffer => by rw [hc]) (fun buffer => by rw [hc]; exact hnext)

/-- A packet whose sample has frames only yields them, one after the other. -/
theorem yields_packet {k : Codec} {p : Packet} {s : Sample} (frames : List Frame) (hs : k.sampleOf p = some s)
    (hsend : s.sendFault = none) (hyields : s.yields = frames.map .frame)
    (hok : ∀ f ∈ frames, f.conversionFault = none) (hpending : k.pending = [])
    (h : ∀ current log, VideoCodec.Yields ({ k with pending := [], current, log } : Codec) false items m) :
    VideoCodec.Yields k false (.packet p :: items) (frames.length + m) := by
  have hsent : VideoCodec.send k p =
      (.ok (), { k with log := .packet p.pts :: k.log, pending := k.pending ++ s.yields }) := by
    have hs' : ({ k with log := .packet p.pts :: k.log } : Codec).sampleOf p = some s := hs
    change k.send p = _
    simp only [send, hs', hsend]
  rw [hyields, hpending, List.nil_append] at hsent
  exact .send hsent (yields_frames hok rfl (fun current => h current _))

theorem sampleOf_packetOf {k : Codec} {place : Nat} {x s : Sample} (hsize : 4 ≤ x.size) (hplace : place < Nat.pow 256 4)
    (hitem : k.items[place]? = some (.sample s)) : k.sampleOf (Source.packetOf place x) = some s := by
  have hlen := Bytes.length_littleEndian 4 place
  have hdata : (Source.packetOf place x).data.data.toList =
      Bytes.littleEndian 4 place ++ (Bytes.zeros (x.size - 4)).data.toList := by
    rw [Source.packetOf, Bytes.toList_append, List.data_toByteArray, List.toList_toArray,
      List.take_of_length_le (by omega)]
  have hlong : ¬ (Source.packetOf place x).size < 4 := by
    rw [Packet.size, ← ByteArray.size_data, ← Array.length_toList, hdata, List.length_append, hlen]
    omega
  have hname : Bytes.ofLittleEndian (Bytes.leading 4 (Source.packetOf place x).data) = place := by
    rw [Bytes.leading, ByteArray.data_extract, Array.toList_extract, hdata, List.extract_eq_take_drop, List.drop_zero,
      List.take_append_of_le_length (by omega), List.take_of_length_le (by omega),
      Bytes.ofLittleEndian_littleEndian 4 place hplace]
  rw [sampleOf, if_neg hlong, hname, hitem]

end Script.Codec

/-- A queue over its limit, a ring of one picture, and a failing read, an end that is not the last one, a packet of
another stream and one more packet to come. -/
theorem Session.rounds_play_out_small_ring :
    let source : Script.Source := { items := #[.sample { size := 4, yields := [.frame {}, .frame {}] }, .fault "io",
      .endOfFile, .sample { stream := 1, size := 4 }, .sample { size := 8, yields := [.frame {}] }] }
    let start : Session Script.Source Script.Codec Empty :=
      Player.sessionOf 0 { pictureCapacity := 1, videoQueueLimit := 1 } source none
        (some ({ kind := .video }, { items := source.items }))
    let s := start.run (List.replicate 8 (0, .demux))
    s.Undisturbed ∧ s.deck.videoHasRoom = false ∧
      ∀ instants, ∃ k ≤ 14, ∃ t, s.Rounds instants k t ∧ t.PlayedOut := by
  intro source start s
  let near : Script.Sample := { size := 4, yields := [.frame {}, .frame {}] }
  let far : Script.Sample := { size := 8, yields := [.frame {}] }
  let w : Decoder Script.Codec := { stream := { kind := .video }, codec := { items := source.items } }
  let items : List (Outcome (Option Packet)) := [.error (.cannotOpen "io"), .ok none,
    .ok (some (Script.Source.packetOf 3 { stream := 1, size := 4 })), .ok (some (Script.Source.packetOf 4 far))]
  have full : s.deck.videoHasRoom = false := by decide +kernel
  have behind : s = start.withDemuxer
      { start.deck with videoQueue := start.deck.videoQueue.put (.packet (Script.Source.packetOf 0 near)) }
      ⟨{ source with position := 1 }, .top⟩ := rfl
  have last (codec : Script.Codec) (hi : codec.items = source.items) (hp : codec.pending = []) :
      VideoCodec.Yields codec false [.packet (Script.Source.packetOf 4 far)] 1 :=
    Script.Codec.yields_packet (m := 0) [{}]
      (Script.Codec.sampleOf_packetOf (by decide) (by decide) (by rw [hi]; rfl)) rfl rfl (by simp) hp
      (fun _ _ => .rest _)
  have yields : VideoCodec.Yields w.codec false
      [.packet (Script.Source.packetOf 0 near), .packet (Script.Source.packetOf 4 far)] 3 :=
    Script.Codec.yields_packet (m := 1) [{}, {}]
      (Script.Codec.sampleOf_packetOf (by decide) (by decide) rfl) rfl rfl (by simp) rfl (fun _ _ => last _ rfl rfl)
  have play := rounds_play_out (D := Empty) 0 { pictureCapacity := 1, videoQueueLimit := 1 } source { kind := .video }
    { items := source.items } (List.replicate 8 (0, .demux)) w items 3
  rw [show Session.run _ _ = _ from behind] at play
  rw [behind] at full ⊢
  refine ⟨⟨rfl, rfl, rfl, rfl, .inl rfl⟩, full, fun instants => ?_⟩
  obtain ⟨k, hk, t, hrounds, hout, -⟩ := play ⟨rfl, rfl, rfl, rfl, .inl rfl⟩ rfl
    ⟨rfl, nofun, rfl, nofun, rfl, nofun, rfl, nofun, Container.exhausted_of_read rfl⟩ yields instants
  exact ⟨k, hk, t, hrounds, hout⟩

end Playhead
