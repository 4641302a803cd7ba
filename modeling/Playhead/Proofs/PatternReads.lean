import Playhead.Proofs.EpochPictures
import Playhead.Proofs.FrameTimes
/-!
# PatternReads — which frames an epoch reads

A container of the test pattern gives its frames one after the other, each with the audio packet of its moment behind
it.  So the video packets that were read in an epoch are the frames from one position on: from where the container was
opened, or where the seek sent it (`TestPattern.Source.Placed`, `Regular.placed_run`).
-/
namespace Playhead

variable {C K D : Type}

namespace TestPattern.Source

variable {s c : Source}

/-- A source that was read and sent to positions. -/
def Of (s c : Source) : Prop :=
  c = { s with reads := c.reads, position := c.position, audioOwed := c.audioOwed }

theorem Of.regular (hc : s.Of c) (h : s.Regular) : c.Regular := by
  rw [hc]
  exact ⟨h.video, h.slow, h.fast, h.reads, h.seeks, h.whole, h.size⟩

theorem Of.trans {c' : Source} (hc : s.Of c) (hc' : c.Of c') : s.Of c' := by
  rw [Of] at hc hc'
  rw [hc] at hc'
  exact hc'

theorem Regular.atPosition_eq (h : s.Regular) :
    s.atPosition = if s.frameCount ≤ s.position then (none, s)
      else (some (s.videoPacket 0 s.position),
        { s with position := s.position + 1, audioOwed := s.audioIndex?.isSome }) := by
  simp only [atPosition, videoIndex?, h.video, if_true]

theorem advance_cases (s : Source) :
    s.advance = { s with audioOwed := false }.atPosition ∨
      s.audioOwed = true ∧ ∃ audio, s.audioIndex? = some audio ∧
        s.advance = (some (s.audioPacket audio (s.position - 1)), { s with audioOwed := false }) := by
  cases ho : s.audioOwed with
  | false =>
    have hs : s = { s with audioOwed := false } := by rw [← ho]
    left
    rw [← hs]
    simp only [advance, ho, Bool.false_eq_true, if_false]
  | true =>
    have same : ({ s with audioOwed := false } : Source).audioIndex? = s.audioIndex? := rfl
    simp only [advance, ho, if_true, same]
    cases ha : s.audioIndex? with
    | none => exact .inl rfl
    | some audio => exact .inr ⟨trivial, audio, rfl, rfl⟩

/-- **What a read comes to**: the frame at the position, the audio packet that is owed, or the end. -/
theorem Regular.read_cases (h : s.Regular) :
    s.Of s.read.2 ∧
      (s.position < s.frameCount ∧ s.read.1 = .ok (some (s.videoPacket 0 s.position)) ∧
          s.read.2.position = s.position + 1 ∨
        s.audioOwed = true ∧ (∃ n, s.read.1 = .ok (some (s.audioPacket 1 n))) ∧ s.read.2.position = s.position ∧
          s.read.2.audioOwed = false ∨
        s.frameCount ≤ s.position ∧ s.read.1 = .ok none ∧ s.read.2.position = s.position ∧
          s.read.2.audioOwed = false) := by
  have hread : s.read = (.ok ({ s with reads := s.reads + 1 } : Source).advance.1,
      ({ s with reads := s.reads + 1 } : Source).advance.2) := by
    simp only [read, h.reads, reduceCtorEq, if_false]
  rw [hread]
  rcases advance_cases { s with reads := s.reads + 1 } with ha | ⟨ho, audio, hi, ha⟩
  · have hof : s.Of { s with reads := s.reads + 1, audioOwed := false } := rfl
    rw [ha, (hof.regular h).atPosition_eq]
    by_cases hend : s.frameCount ≤ s.position
    · rw [if_pos (show Source.frameCount { s with reads := s.reads + 1, audioOwed := false } ≤ s.position from hend)]
      exact ⟨rfl, .inr (.inr ⟨hend, rfl, rfl, rfl⟩)⟩
    · rw [if_neg (show ¬ Source.frameCount { s with reads := s.reads + 1, audioOwed := false } ≤ s.position from hend)]
      exact ⟨rfl, .inl ⟨Nat.lt_of_not_le hend, rfl, rfl⟩⟩
  · have hone : audio = 1 := by
      change (if s.hasAudio then some (if s.hasVideo then 1 else 0) else none) = some audio at hi
      rw [h.video] at hi
      split at hi
      · exact (Option.some.inj hi).symm
      · cases hi
    rw [ha, hone]
    exact ⟨rfl, .inr (.inl ⟨ho, ⟨_, rfl⟩, rfl, rfl⟩)⟩

/-- The frame at which reading begins: where the container was opened, or where a seek sent it. -/
def landing (s : Source) : Option Ticks → Nat
  | none => s.position
  | some us => min (s.frameAt us) s.frameCount

/-- Where the container is: behind what was read in the epoch, or where a seek sent it whose epoch has not begun. -/
def place (s : Source) (e : Epoch) : Phase → Nat
  | .toClear us | .toShut us => s.landing (some us)
  | .settled | .toMark _ => s.landing e.seek + e.read.length

/-- **The video packets of an epoch are the frames from its position on**, one after the other. -/
structure Placed (s : Source) (w : Demuxer Source) (e : Epoch) : Prop where
  of : s.Of w.container
  read : e.read = (List.range' (s.landing e.seek) e.read.length).map (s.videoPacket 0)
  within : e.read = [] ∨ s.landing e.seek + e.read.length ≤ s.frameCount
  position : w.container.position = s.place e (w.point.phase .video)

variable {d : Deck} {dest : Packet → Option Lane} {w : Demuxer Source} {e : Epoch}

theorem Placed.goto (h : s.Placed w e) {q : DemuxPoint} {e' : Epoch} (hseek : e'.seek = e.seek)
    (hread : e'.read = e.read) (hplace : s.place e (q.phase .video) = s.place e (w.point.phase .video)) :
    s.Placed ⟨w.container, q⟩ e' where
  of := h.of
  read := by
    rw [hread, hseek]
    exact h.read
  within := by
    rw [hread, hseek]
    exact h.within
  position := by
    have hsame : s.place e' (q.phase .video) = s.place e (q.phase .video) := by
      cases q.phase .video <;> simp only [place, hseek, hread]
    exact h.position.trans (hsame.trans hplace).symm

theorem Placed.apply (h : s.Placed w e) (hv : d.video = some s.videoStream) {target : Float} {us : Ticks}
    {stage : SeekStage} (hp : w.point = .apply target us stage) (hstage : stage ≠ .clearRing) (now : Nat) :
    s.Placed (w.step now d).2.1 (e.after dest (w.notes d)) := by
  simp only [Demuxer.step, Demuxer.notes, hp]
  cases stage with
  | clearAudio => exact h.goto rfl rfl (by rw [hp]; rfl)
  | markAudio =>
    have he : e.after dest (d.audio.toList.map (fun a => .put .audio (SeekStage.marker a us))) = e := by
      cases d.audio <;> rfl
    rw [he, SeekStage.next, hv]
    exact h.goto rfl rfl (by rw [hp]; rfl)
  | clearVideo => exact h.goto rfl rfl (by rw [hp]; rfl)
  | holdRing =>
    have hposition := h.position
    rw [hp] at hposition
    exact ⟨h.of, rfl, .inl rfl, hposition⟩
  | markVideo =>
    rw [hv]
    exact h.goto rfl rfl (by rw [hp]; rfl)
  | clearRing => exact absurd rfl hstage
  | setClock | unsetEnded => exact h.goto rfl rfl (by rw [hp]; rfl)

theorem Of.seek_eq (hc : s.Of c) (h : s.Regular) (us : Ticks) :
    Container.seek c us = (.ok (), { c with position := s.landing (some us), audioOwed := false }) := by
  have hseek : Container.seek c us =
      (.ok (), { c with position := min (c.frameAt us) c.frameCount, audioOwed := false }) :=
    if_neg (Bool.eq_false_iff.1 (hc.regular h).seeks)
  have hlanding : min (c.frameAt us) c.frameCount = s.landing (some us) := by
    rw [hc]
    rfl
  rw [hseek, hlanding]

theorem Placed.seek (h : s.Placed w e) (hs : s.Regular) (hv : d.video = some s.videoStream) {target : Float}
    (hp : w.point = .seek target) (now : Nat) : s.Placed (w.step now d).2.1 (e.after dest (w.notes d)) := by
  have hstream : d.stream? .video = some s.videoStream := hv
  have hphase := SeekStage.phase_first hstream (seekMicros target)
  simp only [Demuxer.step, Demuxer.notes, hp, h.of.seek_eq hs]
  refine ⟨h.of.trans rfl, h.read, h.within, ?_⟩
  change _ = s.place e ((SeekStage.first d).phase (seekMicros target) .video)
  rw [hphase]
  rfl

theorem laneOf_video (hv : d.video = some s.videoStream) (n : Nat) :
    d.laneOf (s.videoPacket 0 n) = some .video := by
  unfold Deck.laneOf
  rw [hv]
  exact if_pos rfl

theorem laneOf_audio (hv : d.video = some s.videoStream) (n : Nat) :
    d.laneOf (s.audioPacket 1 n) ≠ some .video := by
  unfold Deck.laneOf
  rw [hv, if_neg (show ¬ Option.map StreamInfo.index (some s.videoStream) = some (s.audioPacket 1 n).stream from nofun)]
  split <;> exact nofun

theorem Placed.reading (h : s.Placed w e) (hs : s.Regular) (hv : d.video = some s.videoStream)
    (hp : w.point = .read) (now : Nat) : s.Placed (w.step now d).2.1 (e.after d.laneOf (w.notes d)) := by
  have hposition := h.position
  rw [hp] at hposition
  have hpos : w.container.position = s.landing e.seek + e.read.length := hposition
  have frame (n : Nat) : w.container.videoPacket 0 n = s.videoPacket 0 n := by
    rw [h.of]
    rfl
  have audio (n : Nat) : w.container.audioPacket 1 n = s.audioPacket 1 n := by
    rw [h.of]
    rfl
  have count : w.container.frameCount = s.frameCount := by
    rw [h.of]
    rfl
  obtain ⟨hof, hcases⟩ := (h.of.regular hs).read_cases
  rw [frame, count] at hcases
  have hread : Container.read w.container = w.container.read := rfl
  simp only [Demuxer.step, Demuxer.notes, hp, hread]
  rcases hr : w.container.read with ⟨r, c⟩
  rw [hr] at hof hcases
  rcases hcases with ⟨hlt, rfl, hnext⟩ | ⟨-, ⟨n, rfl⟩, hnext, -⟩ | ⟨-, rfl, hnext, -⟩
  · have he : e.after d.laneOf [.read (.ok (some (s.videoPacket 0 w.container.position)))] =
        { e with read := e.read ++ [s.videoPacket 0 w.container.position] } := if_pos (laneOf_video hv _)
    rw [he]
    refine ⟨h.of.trans hof, ?_, .inr ?_, ?_⟩
    · change e.read ++ _ = (List.range' (s.landing e.seek) (e.read ++ [_]).length).map _
      rw [List.length_append, List.length_singleton, List.range'_concat, List.map_append, ← h.read, hpos, Nat.one_mul]
      rfl
    · change s.landing e.seek + (e.read ++ [_]).length ≤ _
      rw [List.length_append, List.length_singleton]
      omega
    · change c.position = s.landing e.seek + (e.read ++ [_]).length
      rw [List.length_append, List.length_singleton, ← Nat.add_assoc, ← hpos]
      exact hnext
  · rw [audio]
    have he : e.after d.laneOf [.read (.ok (some (s.audioPacket 1 n)))] = e := if_neg (laneOf_audio hv _)
    rw [he]
    exact ⟨h.of.trans hof, h.read, h.within, hnext.trans hpos⟩
  · exact ⟨h.of.trans hof, h.read, h.within, hnext.trans hpos⟩

theorem Placed.step (h : s.Placed w e) (hs : s.Regular) (hv : d.video = some s.videoStream)
    (hstage : ∀ target us, w.point ≠ .apply target us .clearRing) (now : Nat) :
    s.Placed (w.step now d).2.1 (e.after d.laneOf (w.notes d)) := by
  cases hp : w.point with
  | seek target => exact h.seek hs hv hp now
  | apply target us stage => exact h.apply hv hp (fun hc => hstage target us (by rw [hp, hc])) now
  | read => exact h.reading hs hv hp now
  | start =>
    simp only [Demuxer.step, Demuxer.notes, hp, DemuxPoint.entry, hv]
    exact h.goto rfl rfl (by rw [hp]; rfl)
  | poll =>
    simp only [Demuxer.step, Demuxer.notes, hp]
    cases d.pendingSeek <;> exact h.goto rfl rfl (by rw [hp]; rfl)
  | top | audioRoom | videoRoom | videoIdle | audioIdle | ringEmpty =>
    simp only [Demuxer.step, Demuxer.notes, hp]
    split <;> exact h.goto rfl rfl (by rw [hp]; rfl)
  | route p =>
    simp only [Demuxer.step, Demuxer.notes, hp]
    have routed : Note.epoch d.laneOf e (.routed p) = e ∨
        Note.epoch d.laneOf e (.routed p) = { e with packets := e.packets ++ [p] } := by
      by_cases hd : d.laneOf p = some .video
      · exact .inr (if_pos hd)
      · exact .inl (if_neg hd)
    have same : e.after d.laneOf (.routed p :: (d.laneOf p).toList.map (fun lane => .put lane (.packet p))) =
        Note.epoch d.laneOf e (.routed p) := by
      cases d.laneOf p <;> rfl
    rw [same]
    rcases routed with he | he
    · rw [he]
      exact h.goto rfl rfl (by rw [hp]; rfl)
    · rw [he]
      exact h.goto rfl rfl (by rw [hp]; rfl)
  | leaving how | retire target | arrived p | markEnded =>
    simp only [Demuxer.step, Demuxer.notes, hp]
    exact h.goto rfl rfl (by rw [hp]; rfl)
  | gone how =>
    simp only [Demuxer.step, Demuxer.notes, hp]
    exact h.goto rfl rfl (by rw [hp])

end TestPattern.Source

theorem Session.seek_read_of_ne_demux [Container C K] [VideoCodec K] [AudioDecoder D] (s : Session C K D) {m : Move}
    (hm : m ≠ .demux) (dest : Packet → Option Lane) (e : Epoch) :
    (e.after dest (s.notes m)).seek = e.seek ∧ (e.after dest (s.notes m)).read = e.read := by
  have took (lane : Lane) (taken : Taken) :
      (e.after dest (taken.notes lane)).seek = e.seek ∧ (e.after dest (taken.notes lane)).read = e.read := by
    cases taken <;> cases lane <;> exact ⟨rfl, rfl⟩
  cases m with
  | demux => exact absurd rfl hm
  | takeAudio => exact took .audio _
  | decode =>
    simp only [Session.notes]
    cases s.decoder with
    | none => exact ⟨rfl, rfl⟩
    | some w =>
      simp only [Option.elim_some, Decoder.notes]
      split
      · exact took .video _
      · exact ⟨rfl, rfl⟩
  | refresh master =>
    simp only [Session.notes]
    split <;> exact ⟨rfl, rfl⟩
  | requestSeek target | setPaused on | beginClose => exact ⟨rfl, rfl⟩

namespace TestPattern.Source

variable [AudioDecoder D] {s : Source}

/-- **A container that is played gives its frames in order**, from the position of the last seek on. -/
theorem Regular.placed_run (hs : s.Regular) (now : Nat) (config : Config) (audio : Option (StreamInfo × D))
    (codec : Codec) (moves : List (Nat × Move)) :
    let start : Session Source Codec D := Player.sessionOf now config s audio (some (s.videoStream, codec))
    s.Placed (start.run moves).demuxer (Epoch.after start.deck.laneOf {} (start.chronicle moves)) := by
  intro start
  let P (x : Session Source Codec D) (notes : List Note) : Prop :=
    x.deck.video = some s.videoStream ∧ x.deck.laneOf = start.deck.laneOf ∧
      (∀ target us, x.demuxer.point ≠ .apply target us .clearRing) ∧
      s.Placed x.demuxer (Epoch.after start.deck.laneOf {} notes)
  have first : P start [] := ⟨rfl, rfl, fun _ _ hc => (by cases hc), rfl, rfl, .inl rfl, rfl⟩
  refine (Session.run_keeps (P := P) (fun x notes now m ⟨hv, hdest, hstage, hplaced⟩ => ?_) start [] first moves).2.2.2
  refine ⟨(x.move_streams now m).1.trans hv, (x.laneOf_move now m).trans hdest, ?_, ?_⟩
  · by_cases hm : m = .demux
    · rw [hm]
      exact Demuxer.stage_step hv now x.demuxer
    · rw [(x.move_slot now hm).1]
      exact hstage
  · rw [Epoch.after_append]
    by_cases hm : m = .demux
    · rw [hm, ← hdest]
      rw [← hdest] at hplaced
      exact hplaced.step hs hv hstage now
    · obtain ⟨hseek, hread⟩ := x.seek_read_of_ne_demux hm start.deck.laneOf (Epoch.after start.deck.laneOf {} notes)
      rw [(x.move_slot now hm).1]
      exact hplaced.goto hseek hread rfl

end TestPattern.Source
end Playhead
