import Playhead.Proofs.Chronicle
/-!
# QueueSteps — what an action can do to a packet queue

A seek is not one action: the container goes to the position, and only afterwards are the queues cleared and the markers
put, one after the other, while the consumers go on taking items.  `Lane.Step` says once what any action of any thread
can do to one of the queues, and how far the seek has come by it; `Session.laneStep` is that every move does one of
these things.
-/
namespace Playhead

variable {C K D : Type}

/-- How far the demuxer has come with a seek, as a queue sees it. -/
inductive Phase
  | settled
  /-- The container is at the new position; the queue is still the old one. -/
  | toClear (us : Ticks)
  /-- The video queue is clear, and the ring still open. -/
  | toShut (us : Ticks)
  | toMark (us : Ticks)
deriving DecidableEq

def SeekStage.phase (us : Ticks) : Lane → SeekStage → Phase
  | .audio, .clearAudio => .toClear us
  | .audio, .markAudio => .toMark us
  | .video, .clearAudio | .video, .markAudio | .video, .clearVideo => .toClear us
  | .video, .holdRing => .toShut us
  | .video, .markVideo => .toMark us
  | _, _ => .settled

def DemuxPoint.phase (lane : Lane) : DemuxPoint → Phase
  | .apply _ us stage => stage.phase us lane
  | _ => .settled

/-- The audio queue is marked as soon as it is clear; in between the ring is shut for the video queue. -/
def Lane.afterClear (us : Ticks) : Lane → Phase
  | .audio => .toMark us
  | .video => .toShut us

/-- A note that says something about a queue and its timelines. -/
def Note.concerns (dest : Packet → Option Lane) (lane : Lane) : Note → Bool
  | .cleared l | .put l _ | .took l _ => l == lane
  | .routed p => dest p == some lane
  | .shut _ => lane == .video
  | .sought _ => true
  | _ => false

def Apart (dest : Packet → Option Lane) (lane : Lane) (ns : List Note) : Prop :=
  ∀ n ∈ ns, n.concerns dest lane = false

/-- Everything that an action can do to a queue: phase and items before, notes, phase and items after. -/
inductive Lane.Step (lane : Lane) (stream : StreamInfo) (dest : Packet → Option Lane) :
    Phase → List QueueItem → List Note → Phase → List QueueItem → Prop
  | quiet (phase : Phase) (items : List QueueItem) {ns : List Note} (h : Apart dest lane ns) :
      Step lane stream dest phase items ns phase items
  | seek (target : Float) (us : Ticks) (items : List QueueItem) :
      Step lane stream dest .settled items [.applied target, .sought us] (.toClear us) items
  | clear (us : Ticks) (items : List QueueItem) :
      Step lane stream dest (.toClear us) items [.cleared lane] (lane.afterClear us) []
  | shut (us : Ticks) (items : List QueueItem) :
      Step lane stream dest (.toShut us) items [.shut us] (.toMark us) items
  | mark (us : Ticks) (items : List QueueItem) :
      Step lane stream dest (.toMark us) items [.put lane (SeekStage.marker stream us)] .settled
        (items ++ [SeekStage.marker stream us])
  | route {p : Packet} (items : List QueueItem) (hp : dest p = some lane) :
      Step lane stream dest .settled items [.routed p, .put lane (.packet p)] .settled (items ++ [.packet p])
  | take (phase : Phase) (i : QueueItem) (items : List QueueItem) :
      Step lane stream dest phase (i :: items) [.took lane i] phase items

theorem apart_nil (dest : Packet → Option Lane) (lane : Lane) : Apart dest lane ([] : List Note) := by
  intro n hn
  cases hn

theorem apart_singleton {dest : Packet → Option Lane} {lane : Lane} {n : Note}
    (h : n.concerns dest lane = false) : Apart dest lane [n] := by
  intro m hm
  rw [List.mem_singleton.1 hm]
  exact h

theorem SeekStage.audioStep [Container C K] {d : Deck} {stream : StreamInfo} (hs : d.audio = some stream)
    {w : Demuxer C} {target : Float} {us : Ticks} {stage : SeekStage} (hw : w.point = .apply target us stage)
    (now : Nat) :
    Lane.Step .audio stream d.laneOf (stage.phase us .audio) d.audioQueue.items (w.notes d)
      (((stage.next d).elim (DemuxPoint.retire target) (DemuxPoint.apply target us)).phase .audio)
      (stage.act now us d).audioQueue.items := by
  cases stage with
  | clearAudio =>
    simp only [Demuxer.notes, hw]
    exact .clear us _
  | markAudio =>
    have hq : (SeekStage.markAudio.act now us d).audioQueue = d.audioQueue.put (SeekStage.marker stream us) := by
      simp only [act, hs]
      rfl
    simp only [Demuxer.notes, hw, hs, hq, PacketQueue.items_put, next]
    cases d.video <;> exact .mark us _
  | clearVideo | holdRing =>
    simp only [Demuxer.notes, hw]
    exact .quiet _ _ (apart_singleton rfl)
  | markVideo =>
    have hq : (SeekStage.markVideo.act now us d).audioQueue = d.audioQueue := by
      simp only [act]
      cases d.video <;> rfl
    simp only [Demuxer.notes, hw, hq]
    refine .quiet _ _ (fun n hn => ?_)
    obtain ⟨v, -, rfl⟩ := List.mem_map.1 hn
    rfl
  | clearRing | setClock | unsetEnded =>
    simp only [Demuxer.notes, hw]
    exact .quiet _ _ (apart_nil _ _)

theorem SeekStage.videoStep [Container C K] {d : Deck} {stream : StreamInfo} (hs : d.video = some stream)
    {w : Demuxer C} {target : Float} {us : Ticks} {stage : SeekStage} (hw : w.point = .apply target us stage)
    (now : Nat) :
    Lane.Step .video stream d.laneOf (stage.phase us .video) d.videoQueue.items (w.notes d)
      (((stage.next d).elim (DemuxPoint.retire target) (DemuxPoint.apply target us)).phase .video)
      (stage.act now us d).videoQueue.items := by
  cases stage with
  | clearAudio =>
    simp only [Demuxer.notes, hw]
    exact .quiet _ _ (apart_singleton rfl)
  | markAudio =>
    have hq : (SeekStage.markAudio.act now us d).videoQueue = d.videoQueue := by
      simp only [act]
      cases d.audio <;> rfl
    simp only [Demuxer.notes, hw, hq, next, hs]
    refine .quiet _ _ (fun n hn => ?_)
    obtain ⟨a, -, rfl⟩ := List.mem_map.1 hn
    rfl
  | clearVideo =>
    simp only [Demuxer.notes, hw]
    exact .clear us _
  | holdRing =>
    simp only [Demuxer.notes, hw]
    exact .shut us _
  | markVideo =>
    have hq : (SeekStage.markVideo.act now us d).videoQueue = d.videoQueue.put (SeekStage.marker stream us) := by
      simp only [act, hs]
      rfl
    simp only [Demuxer.notes, hw, hs, hq, PacketQueue.items_put]
    exact .mark us _
  | clearRing | setClock | unsetEnded =>
    simp only [Demuxer.notes, hw]
    exact .quiet _ _ (apart_nil _ _)

theorem SeekStage.phase_first {d : Deck} {lane : Lane} {stream : StreamInfo} (hs : d.stream? lane = some stream)
    (us : Ticks) : (SeekStage.first d).phase us lane = .toClear us := by
  unfold first
  cases lane with
  | audio =>
    have ha : d.audio = some stream := hs
    rw [ha]
    rfl
  | video =>
    have hv : d.video = some stream := hs
    rw [hv]
    cases d.audio <;> rfl

theorem Demuxer.laneStep [Container C K] {d : Deck} {lane : Lane} {stream : StreamInfo}
    (hs : d.stream? lane = some stream) (now : Nat) (w : Demuxer C) :
    Lane.Step lane stream d.laneOf (w.point.phase lane) (d.queue lane).items (w.notes d)
      ((w.step now d).2.1.point.phase lane) ((w.step now d).1.queue lane).items := by
  cases hp : w.point with
  | apply target us stage =>
    have hn : (w.step now d).2.1.point = (stage.next d).elim (.retire target) (.apply target us) := by
      simp only [Demuxer.step, hp]
    have hd : (w.step now d).1 = stage.act now us d := by simp only [Demuxer.step, hp]
    rw [hn, hd]
    cases lane with
    | audio => exact SeekStage.audioStep hs hp now
    | video => exact SeekStage.videoStep hs hp now
  | seek target =>
    -- only a container that goes there begins a timeline
    simp only [Demuxer.step, Demuxer.notes, hp]
    rcases Container.seek w.container (seekMicros target) with ⟨r, c⟩
    cases r with
    | ok _ =>
      simp only [DemuxPoint.phase, SeekStage.phase_first hs]
      exact .seek target _ _
    | error _ => exact .quiet _ _ (apart_singleton rfl)
    | died => exact .quiet _ _ (apart_singleton rfl)
  | route p =>
    simp only [Demuxer.step, Demuxer.notes, hp, Deck.queue_route]
    by_cases hl : d.laneOf p = some lane
    · rw [hl, if_pos rfl, PacketQueue.items_put]
      exact .route _ hl
    · rw [if_neg hl]
      refine .quiet _ _ (fun n hn => ?_)
      rcases List.mem_cons.1 hn with rfl | hn
      · simpa [Note.concerns] using hl
      · obtain ⟨l, hm, rfl⟩ := List.mem_map.1 hn
        have hm : d.laneOf p = some l := Option.mem_toList.1 hm
        simp only [Note.concerns, beq_eq_false_iff_ne]
        rintro rfl
        exact hl hm
  | start =>
    simp only [Demuxer.step, Demuxer.notes, hp]
    have hn : (DemuxPoint.entry d).phase lane = .settled := by
      unfold DemuxPoint.entry
      split <;> rfl
    rw [hn]
    exact .quiet _ _ (apart_nil _ _)
  | poll =>
    simp only [Demuxer.step, Demuxer.notes, hp]
    cases d.pendingSeek with
    | none => exact .quiet _ _ (apart_nil _ _)
    | some target => exact .quiet _ _ (apart_singleton rfl)
  | read =>
    simp only [Demuxer.step, Demuxer.notes, hp]
    split <;> exact .quiet _ _ (apart_singleton rfl)
  | retire target =>
    simp only [Demuxer.step, Demuxer.notes, hp, d.completeSeek_eq]
    cases lane <;> exact .quiet _ _ (apart_nil _ _)
  | markEnded =>
    simp only [Demuxer.step, Demuxer.notes, hp, d.markEnded_eq]
    cases lane <;> exact .quiet _ _ (apart_nil _ _)
  | arrived p | leaving how =>
    simp only [Demuxer.step, Demuxer.notes, hp]
    cases lane <;> exact .quiet _ _ (apart_nil _ _)
  | gone how =>
    simp only [Demuxer.step, Demuxer.notes, hp]
    exact .quiet _ _ (apart_nil _ _)
  | top | audioRoom | videoRoom | videoIdle | audioIdle | ringEmpty =>
    simp only [Demuxer.step, Demuxer.notes, hp]
    split <;> exact .quiet _ _ (apart_nil _ _)

theorem PacketQueue.laneStep (q : PacketQueue) (stop : Bool) (lane : Lane) (stream : StreamInfo)
    (dest : Packet → Option Lane) (phase : Phase) :
    Lane.Step lane stream dest phase q.items ((q.take stop).1.notes lane : List Note) phase (q.take stop).2.items := by
  cases stop with
  | true => exact .quiet _ _ (apart_nil _ _)
  | false =>
    cases h : q.items with
    | nil =>
      obtain ⟨ht, hi⟩ := take_of_nil h
      rw [ht, hi]
      cases q.flushing <;> exact .quiet _ _ (apart_nil _ _)
    | cons i rest =>
      obtain ⟨ht, hi⟩ := take_of_cons h
      rw [ht, hi]
      exact .take _ _ _

theorem Taken.apart_notes (taken : Taken) {lane lane' : Lane} (h : lane' ≠ lane)
    (dest : Packet → Option Lane) : Apart dest lane (taken.notes lane' : List Note) := by
  cases taken with
  | item i => exact apart_singleton (by simpa [Note.concerns] using h)
  | _ => exact apart_nil _ _

theorem Decoder.laneStep [VideoCodec K] (w : Decoder K) (lane : Lane) (stream : StreamInfo) (d : Deck) (phase : Phase) :
    Lane.Step lane stream d.laneOf phase (d.queue lane).items (w.notes d) phase ((w.step d).1.queue lane).items := by
  cases lane with
  | audio =>
    have hq : (w.step d).1.queue .audio = d.queue .audio := w.audioQueue_step d
    rw [hq]
    refine .quiet _ _ ?_
    unfold Decoder.notes
    split
    · exact Taken.apart_notes _ (by decide) _
    · exact apart_nil _ _
  | video =>
    cases hp : w.point with
    | take =>
      have hq : (w.step d).1.queue .video = (d.videoQueue.take d.stop).2 := videoQueue_step_take hp d
      simp only [Decoder.notes, hp]
      rw [hq]
      exact d.videoQueue.laneStep d.stop .video stream d.laneOf phase
    | _ =>
      have hq : (w.step d).1.queue .video = d.queue .video := videoQueue_step (by rw [hp]; exact fun h => by cases h) d
      simp only [Decoder.notes, hp]
      rw [hq]
      exact .quiet _ _ (apart_nil _ _)

/-- **What a move can do to a queue.** -/
theorem Session.laneStep [Container C K] [VideoCodec K] [AudioDecoder D] {s : Session C K D} {lane : Lane}
    {stream : StreamInfo} (hs : s.deck.stream? lane = some stream) (now : Nat) (m : Move) :
    Lane.Step lane stream s.deck.laneOf (s.demuxer.point.phase lane) (s.deck.queue lane).items (s.notes m)
      ((s.move now m).demuxer.point.phase lane) ((s.move now m).deck.queue lane).items := by
  cases m with
  | demux => exact Demuxer.laneStep hs now s.demuxer
  | decode =>
    simp only [Session.move, Session.decode, Session.notes]
    cases s.decoder with
    | none => exact .quiet _ _ (apart_nil _ _)
    | some w => exact w.laneStep lane stream s.deck _
  | takeAudio =>
    cases lane with
    | audio => exact s.deck.audioQueue.laneStep s.deck.stop .audio stream s.deck.laneOf _
    | video => exact .quiet _ _ (Taken.apart_notes _ (by decide) _)
  | refresh master =>
    simp only [Session.move, Session.notes]
    split
    · exact .quiet _ _ (apart_nil _ _)
    · cases lane <;> exact .quiet _ _ (apart_singleton rfl)
  | requestSeek target => cases lane <;> exact .quiet _ _ (apart_singleton rfl)
  | setPaused on => cases lane <;> exact .quiet _ _ (apart_nil _ _)
  | beginClose => cases lane <;> exact .quiet _ _ (apart_nil _ _)

end Playhead
