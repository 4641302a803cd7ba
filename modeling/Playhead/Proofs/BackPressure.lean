import Playhead.Proofs.Timelines
/-!
# BackPressure — how full a packet queue can be

The demuxer looks at the audio queue, then at the video queue, then reads, and then puts what it read on a queue; the
consumers, and nobody else, change the queues meanwhile, and only by taking from them.  So a queue that was within its
limit when it was looked at is within its limit when a packet is put on it (`PressureLaw`), and is over its limit by
one packet at most (`Session.queues_bounded`).
-/
namespace Playhead

variable {C K D : Type}

def Config.limit (c : Config) : Lane → Nat
  | .video => c.videoQueueLimit
  | .audio => c.audioQueueLimit

def Note.sizeOn (lane : Lane) : Note → Nat
  | .put l (.packet p) => if l = lane then p.size else 0
  | _ => 0

def largest (lane : Lane) (notes : List Note) : Nat := (notes.map (Note.sizeOn lane)).foldr max 0

theorem largest_append (lane : Lane) (notes ns : List Note) :
    largest lane (notes ++ ns) = max (largest lane notes) (largest lane ns) := by
  induction notes with
  | nil => exact (Nat.zero_max _).symm
  | cons n notes ih =>
    change max (n.sizeOn lane) (largest lane (notes ++ ns)) = max (max (n.sizeOn lane) (largest lane notes)) _
    rw [ih, Nat.max_assoc]

theorem le_largest {lane : Lane} {notes : List Note} {p : Packet} (h : .put lane (.packet p) ∈ notes) :
    p.size ≤ largest lane notes := by
  obtain ⟨before, after, rfl⟩ := List.append_of_mem h
  have hp : largest lane (.put lane (.packet p) :: after) = max p.size (largest lane after) := by
    simp [largest, Note.sizeOn]
  rw [largest_append, hp]
  omega

namespace Deck

/-- The stream is not played, or its queue is not over its limit. -/
def WithinLimit (d : Deck) (lane : Lane) : Prop :=
  d.stream? lane = none ∨ (d.queue lane).bytes ≤ d.config.limit lane

theorem audioHasRoom_iff (d : Deck) : d.audioHasRoom = true ↔ d.WithinLimit .audio := by
  simp [audioHasRoom, WithinLimit, stream?, queue, PacketQueue.hasRoom, Config.limit]

theorem videoHasRoom_iff (d : Deck) : d.videoHasRoom = true ↔ d.WithinLimit .video := by
  simp [videoHasRoom, WithinLimit, stream?, queue, PacketQueue.hasRoom, Config.limit]

theorem stream_of_lane {d : Deck} {p : Packet} {lane : Lane} (h : d.laneOf p = some lane) : d.stream? lane ≠ none := by
  unfold laneOf at h
  intro hn
  split at h
  · next hv =>
    cases h
    change d.video = none at hn
    rw [hn] at hv
    cases hv
  · split at h
    · next ha =>
      cases h
      change d.audio = none at hn
      rw [hn] at ha
      cases ha
    · cases h

end Deck

/-! ## What a move does to a queue -/

theorem PacketQueue.bytes_take_le (q : PacketQueue) (stop : Bool) : (q.take stop).2.bytes ≤ q.bytes := by
  cases stop with
  | true => exact Nat.le_refl _
  | false =>
    simp only [take, Bool.false_eq_true, if_false]
    split
    · exact Nat.sub_le _ _
    · exact Nat.le_refl _

/-- Everything that a move can do to a queue, by the notes that it makes: nothing, or one operation of the queue.  Only
on the queue of a stream that is played anything is put. -/
inductive Lane.Touch (lane : Lane) (played : Prop) (ns : List Note) (q : PacketQueue) : PacketQueue → Prop
  | nothing : Touch lane played ns q q
  | take (stop : Bool) : Touch lane played ns q (q.take stop).2
  | flush : Touch lane played ns q q.flush
  | clear : Touch lane played ns q q.clear
  | mark (h : played) (start : Ticks) : Touch lane played ns q (q.put (.marker start))
  | route (h : played) {p : Packet} (hp : .put lane (.packet p) ∈ ns) : Touch lane played ns q (q.put (.packet p))

theorem SeekStage.touch (stage : SeekStage) (now : Nat) (us : Ticks) (d : Deck) (lane : Lane) (ns : List Note) :
    lane.Touch (d.stream? lane ≠ none) ns (d.queue lane) ((stage.act now us d).queue lane) := by
  cases stage with
  | clearAudio =>
    cases lane with
    | audio => exact .clear
    | video => exact .nothing
  | clearVideo =>
    cases lane with
    | audio => exact .nothing
    | video => exact .clear
  | markAudio =>
    simp only [act]
    cases hs : d.audio with
    | none => exact .nothing
    | some stream =>
      cases lane with
      | audio => exact .mark (fun hn => Option.some_ne_none stream (hs.symm.trans hn)) _
      | video => exact .nothing
  | markVideo =>
    simp only [act]
    cases hs : d.video with
    | none => exact .nothing
    | some stream =>
      cases lane with
      | audio => exact .nothing
      | video => exact .mark (fun hn => Option.some_ne_none stream (hs.symm.trans hn)) _
  | holdRing | clearRing | setClock | unsetEnded => cases lane <;> exact .nothing

theorem Demuxer.touch [Container C K] (now : Nat) (d : Deck) (w : Demuxer C) (lane : Lane) :
    lane.Touch (d.stream? lane ≠ none) (w.notes d) (d.queue lane) ((w.step now d).1.queue lane) := by
  cases hp : w.point with
  | apply target us stage =>
    simp only [Demuxer.step, hp]
    exact stage.touch now us d lane _
  | route p =>
    simp only [Demuxer.step, hp, Deck.queue_route]
    by_cases hl : d.laneOf p = some lane
    · rw [if_pos hl]
      exact .route (Deck.stream_of_lane hl) (by simp [Demuxer.notes, hp, hl])
    · rw [if_neg hl]
      exact .nothing
  | retire target =>
    simp only [Demuxer.step, hp, d.completeSeek_eq]
    cases lane <;> exact .nothing
  | markEnded =>
    simp only [Demuxer.step, hp, d.markEnded_eq]
    cases lane <;> exact .nothing
  | seek target | read =>
    simp only [Demuxer.step, hp]
    split <;> exact .nothing
  | _ =>
    simp only [Demuxer.step, hp]
    cases lane <;> exact .nothing

/-- **What a move can do to a queue.** -/
theorem Session.touch [Container C K] [VideoCodec K] [AudioDecoder D] (s : Session C K D) (now : Nat) (m : Move)
    (lane : Lane) :
    lane.Touch (s.deck.stream? lane ≠ none) (s.notes m) (s.deck.queue lane) ((s.move now m).deck.queue lane) := by
  cases m with
  | demux => exact s.demuxer.touch now s.deck lane
  | decode =>
    simp only [Session.move, decode]
    cases s.decoder with
    | none => exact .nothing
    | some w =>
      cases lane with
      | audio =>
        have hq : (w.step s.deck).1.queue .audio = s.deck.queue .audio := w.audioQueue_step s.deck
        simp only [hq]
        exact .nothing
      | video =>
        by_cases hp : w.point = .take
        · have hq : (w.step s.deck).1.queue .video = (s.deck.videoQueue.take s.deck.stop).2 :=
            Decoder.videoQueue_step_take hp s.deck
          simp only [hq]
          exact .take s.deck.stop
        · have hq : (w.step s.deck).1.queue .video = s.deck.queue .video := Decoder.videoQueue_step hp s.deck
          simp only [hq]
          exact .nothing
  | takeAudio =>
    cases lane with
    | audio => exact .take s.deck.stop
    | video => exact .nothing
  | refresh master =>
    simp only [Session.move]
    split
    · exact .nothing
    · cases lane <;> exact .nothing
  | requestSeek target | setPaused on => cases lane <;> exact .nothing
  | beginClose => cases lane <;> exact .flush

namespace Lane.Touch

variable {lane : Lane} {played : Prop} {ns : List Note} {q q' : PacketQueue}

theorem counted (h : lane.Touch played ns q q') (hq : q.Counted) : q'.Counted := by
  cases h with
  | nothing => exact hq
  | take stop => exact PacketQueue.counted_take hq stop
  | flush => exact hq
  | clear => rfl
  | mark _ start => exact PacketQueue.counted_put hq _
  | route _ hp => exact PacketQueue.counted_put hq _

theorem items_of_not_played (h : lane.Touch played ns q q') (hn : ¬ played) (hq : q.items = []) : q'.items = [] := by
  cases h with
  | nothing => exact hq
  | take stop =>
    rw [PacketQueue.items_take, hq]
    cases stop <;> rfl
  | flush => exact hq
  | clear => rfl
  | mark hp start => exact absurd hp hn
  | route hp _ => exact absurd hp hn

theorem idle (h : lane.Touch played ns q q') (hn : ¬ played) (hq : q.isIdle = true) : q'.isIdle = true := by
  cases h with
  | nothing | flush => exact hq
  | take stop => exact PacketQueue.isIdle_take hq stop
  | clear => exact q.clear.isIdle_iff.2 ⟨rfl, (q.isIdle_iff.1 hq).2⟩
  | mark hp start => exact absurd hp hn
  | route hp _ => exact absurd hp hn

/-- A queue gets longer by no more bytes than those of a packet that is put on it. -/
theorem bytes_le (h : lane.Touch played ns q q') :
    q'.bytes ≤ q.bytes ∨ played ∧ ∃ p, .put lane (.packet p) ∈ ns ∧ q'.bytes = q.bytes + p.size := by
  cases h with
  | nothing => exact .inl (Nat.le_refl _)
  | take stop => exact .inl (q.bytes_take_le stop)
  | flush => exact .inl (Nat.le_refl _)
  | clear => exact .inl (Nat.zero_le _)
  | mark _ start => exact .inl (Nat.le_refl _)
  | route h hp => exact .inr ⟨h, _, hp, rfl⟩

end Lane.Touch

/-! ## The law of a queue and its limit -/

/-- The queues that the demuxer has found within their limits in this pass. -/
def DemuxPoint.hasFound : DemuxPoint → Lane → Bool
  | .videoRoom, .audio => true
  | .read, _ | .arrived _, _ | .route _, _ => true
  | _, _ => false

/-- Where the demuxer stands when it reads, and when it puts a packet on a queue. -/
theorem Demuxer.point_of_note [Container C K] {d : Deck} {w : Demuxer C} {n : Note} (h : n ∈ w.notes d) :
    (∀ result, n = .read result → w.point = .read) ∧ (∀ lane p, n = .put lane (.packet p) → w.point = .route p) := by
  cases hp : w.point with
  | read =>
    simp only [Demuxer.notes, hp, List.mem_singleton] at h
    subst h
    exact ⟨fun _ _ => rfl, by simp⟩
  | route q =>
    simp only [Demuxer.notes, hp, List.mem_cons, List.mem_map] at h
    refine ⟨fun _ hn => ?_, fun lane p hn => ?_⟩ <;> subst hn <;> rcases h with h | ⟨l, -, h⟩ <;> cases h
    rfl
  | apply target us stage =>
    simp only [Demuxer.notes, hp] at h
    refine ⟨fun _ hn => ?_, fun lane p hn => ?_⟩ <;> subst hn <;> cases stage <;> simp [SeekStage.marker] at h
  | poll =>
    simp only [Demuxer.notes, hp, List.mem_map] at h
    obtain ⟨target, -, rfl⟩ := h
    exact ⟨by simp, by simp⟩
  | seek target =>
    simp only [Demuxer.notes, hp] at h
    refine ⟨fun _ hn => ?_, fun lane p hn => ?_⟩ <;> subst hn <;> split at h <;> simp at h
  | _ =>
    simp only [Demuxer.notes, hp] at h
    cases h

namespace Session

variable [Container C K] [VideoCodec K] [AudioDecoder D]

omit [AudioDecoder D] in
theorem point_of_note {s : Session C K D} {m : Move} {n : Note} (h : n ∈ s.notes m) :
    (∀ result, n = .read result → m = .demux ∧ s.demuxer.point = .read) ∧
      (∀ lane p, n = .put lane (.packet p) → m = .demux ∧ s.demuxer.point = .route p) := by
  have took {lane : Lane} {taken : Taken} (h : n ∈ taken.notes lane) :
      (∀ result, n ≠ .read result) ∧ ∀ lane p, n ≠ .put lane (.packet p) := by
    cases taken with
    | item i =>
      rw [List.mem_singleton.1 h]
      exact ⟨by simp, by simp⟩
    | _ => cases h
  cases m with
  | demux =>
    obtain ⟨hread, hput⟩ := Demuxer.point_of_note h
    exact ⟨fun result hn => ⟨rfl, hread result hn⟩, fun lane p hn => ⟨rfl, hput lane p hn⟩⟩
  | decode =>
    simp only [notes] at h
    cases hw : s.decoder with
    | none =>
      rw [hw] at h
      cases h
    | some w =>
      rw [hw] at h
      simp only [Option.elim_some, Decoder.notes] at h
      split at h
      · obtain ⟨hread, hput⟩ := took h
        exact ⟨fun result hn => absurd hn (hread result), fun lane p hn => absurd hn (hput lane p)⟩
      · cases h
  | takeAudio =>
    obtain ⟨hread, hput⟩ := took h
    exact ⟨fun result hn => absurd hn (hread result), fun lane p hn => absurd hn (hput lane p)⟩
  | refresh master =>
    simp only [notes] at h
    split at h
    · cases h
    · rw [List.mem_singleton.1 h]
      exact ⟨by simp, by simp⟩
  | requestSeek target =>
    rw [List.mem_singleton.1 h]
    exact ⟨by simp, by simp⟩
  | setPaused on | beginClose => cases h

theorem config_move (s : Session C K D) (now : Nat) (m : Move) : (s.move now m).deck.config = s.deck.config := by
  cases m with
  | demux =>
    change (s.demuxer.step now s.deck).1.config = _
    rw [s.demuxer.step_eq]
  | decode =>
    simp only [Session.move, decode]
    cases s.decoder with
    | none => rfl
    | some w =>
      change (w.step s.deck).1.config = _
      rw [w.step_eq]
  | refresh master =>
    simp only [Session.move]
    split <;> rfl
  | takeAudio | requestSeek target | setPaused on | beginClose => rfl

/-- What holds of a queue, its limit and what was put on it. -/
structure PressureLaw (config : Config) (lane : Lane) (s : Session C K D) (notes : List Note) : Prop where
  config_eq : s.deck.config = config
  counted : (s.deck.queue lane).Counted
  unplayed : s.deck.stream? lane = none → (s.deck.queue lane).items = []
  /-- Nobody but the demuxer adds to a queue, and so what it found in this pass stays true. -/
  found : s.demuxer.point.hasFound lane = true → s.deck.WithinLimit lane
  bounded : (s.deck.queue lane).bytes ≤ config.limit lane + largest lane notes

omit [VideoCodec K] [AudioDecoder D] in
theorem pressureLaw_start (now : Nat) (config : Config) (container : C) (audio : Option (StreamInfo × D))
    (video : Option (StreamInfo × K)) (lane : Lane) :
    PressureLaw config lane (Player.sessionOf now config container audio video : Session C K D) [] where
  config_eq := rfl
  counted := by cases lane <;> rfl
  unplayed _ := by cases lane <;> rfl
  found h := by cases h
  bounded := by cases lane <;> exact Nat.zero_le _

omit [VideoCodec K] [AudioDecoder D] in
/-- How the demuxer comes to have found queues within their limits: it looks at the one, then at the other, and goes on
with what it reads; none of this touches a queue. -/
theorem finds_demux (now : Nat) (d : Deck) (w : Demuxer C) :
    let q := (w.step now d).2.1.point
    (∀ lane, q.hasFound lane = false) ∨
      (∀ lane, (w.step now d).1.queue lane = d.queue lane) ∧
        (q = .videoRoom ∧ w.point = .audioRoom ∧ d.WithinLimit .audio ∨
          q = .read ∧ w.point = .videoRoom ∧ d.WithinLimit .video ∨
          (q ≠ .videoRoom ∧ q ≠ .read) ∧ ∀ lane, w.point.hasFound lane = true) := by
  intro q
  cases hp : w.point with
  | audioRoom =>
    simp only [q, Demuxer.step, hp]
    split
    · next hroom => exact .inr ⟨fun _ => trivial, .inl ⟨rfl, trivial, d.audioHasRoom_iff.1 hroom⟩⟩
    · exact .inl (fun _ => rfl)
  | videoRoom =>
    simp only [q, Demuxer.step, hp]
    split
    · next hroom => exact .inr ⟨fun _ => trivial, .inr (.inl ⟨rfl, trivial, d.videoHasRoom_iff.1 hroom⟩)⟩
    · exact .inl (fun _ => rfl)
  | read =>
    simp only [q, Demuxer.step, hp]
    split
    · exact .inr ⟨fun _ => rfl, .inr (.inr ⟨⟨by simp, by simp⟩, fun _ => rfl⟩)⟩
    · exact .inl (fun _ => rfl)
    · exact .inl (fun _ => rfl)
  | arrived p =>
    simp only [q, Demuxer.step, hp]
    exact .inr ⟨fun lane => (by cases lane <;> rfl), .inr (.inr ⟨⟨by simp, by simp⟩, fun _ => rfl⟩)⟩
  | start =>
    simp only [q, Demuxer.step, hp, DemuxPoint.entry]
    split <;> exact .inl (fun _ => rfl)
  | poll =>
    simp only [q, Demuxer.step, hp]
    cases d.pendingSeek <;> exact .inl (fun _ => rfl)
  | seek target =>
    simp only [q, Demuxer.step, hp]
    split <;> exact .inl (fun _ => rfl)
  | apply target us stage =>
    simp only [q, Demuxer.step, hp]
    cases stage.next d <;> exact .inl (fun _ => rfl)
  | top | videoIdle | audioIdle | ringEmpty =>
    simp only [q, Demuxer.step, hp]
    split <;> exact .inl (fun _ => rfl)
  | retire _ | route _ | markEnded | leaving _ =>
    simp only [q, Demuxer.step, hp]
    exact .inl (fun _ => rfl)
  | gone how =>
    simp only [q, Demuxer.step, hp]
    exact .inl (fun _ => rfl)

omit [VideoCodec K] [AudioDecoder D] in
theorem found_demux {now : Nat} {d : Deck} {w : Demuxer C} {lane : Lane}
    (h : (w.step now d).2.1.point.hasFound lane = true) :
    (w.point.hasFound lane = true ∨ d.WithinLimit lane) ∧ (w.step now d).1.queue lane = d.queue lane := by
  rcases finds_demux now d w with hnone | ⟨hqueue, ⟨hq, -, hroom⟩ | ⟨-, hp, hroom⟩ | ⟨-, hfound⟩⟩
  · rw [hnone lane] at h
    cases h
  · refine ⟨.inr ?_, hqueue lane⟩
    rw [hq] at h
    cases lane with
    | audio => exact hroom
    | video => cases h
  · refine ⟨?_, hqueue lane⟩
    rw [hp]
    cases lane with
    | audio => exact .inl rfl
    | video => exact .inr hroom
  · exact ⟨.inl (hfound lane), hqueue lane⟩

theorem PressureLaw.move {config : Config} {lane : Lane} {s : Session C K D} {notes : List Note}
    (h : PressureLaw config lane s notes) (now : Nat) (m : Move) :
    PressureLaw config lane (s.move now m) (notes ++ s.notes m) := by
  have touch := s.touch now m lane
  have hconfig := s.config_move now m
  have hstream := s.stream_move now m lane
  constructor
  case config_eq => exact hconfig.trans h.config_eq
  case counted => exact touch.counted h.counted
  case unplayed =>
    intro hn
    rw [hstream] at hn
    exact touch.items_of_not_played (fun hp => hp hn) (h.unplayed hn)
  case found =>
    intro hf
    by_cases hm : m = .demux
    · subst hm
      obtain ⟨hor, hq⟩ := found_demux hf
      have hq : ((s.move now .demux).deck.queue lane) = s.deck.queue lane := hq
      rw [Deck.WithinLimit, hstream, hconfig, hq]
      exact hor.elim h.found id
    · rw [(s.move_slot now hm).1] at hf
      rw [Deck.WithinLimit, hstream, hconfig]
      refine (h.found hf).imp_right (fun hle => ?_)
      rcases touch.bytes_le with hb | ⟨-, p, hput, -⟩
      · exact Nat.le_trans hb hle
      · exact absurd (((point_of_note hput).2 lane p rfl).1) hm
  case bounded =>
    rw [largest_append]
    have hold := h.bounded
    rcases touch.bytes_le with hb | ⟨hplayed, p, hput, hb⟩
    · omega
    · -- what was within its limit when the demuxer looked is within it still
      have hpoint := ((point_of_note hput).2 lane p rfl).2
      have hlimit := (h.found (by rw [hpoint]; cases lane <;> rfl)).resolve_left hplayed
      rw [h.config_eq] at hlimit
      have hsize := le_largest hput
      omega

theorem pressureLaw_run (now : Nat) (config : Config) (container : C) (audio : Option (StreamInfo × D))
    (video : Option (StreamInfo × K)) (moves : List (Nat × Move)) (lane : Lane) :
    let start : Session C K D := Player.sessionOf now config container audio video
    PressureLaw config lane (start.run moves) (start.chronicle moves) :=
  run_keeps (fun _ _ now m h => h.move now m) _ [] (pressureLaw_start now config container audio video lane) moves

theorem stream_run (s : Session C K D) (moves : List (Nat × Move)) (lane : Lane) :
    (s.run moves).deck.stream? lane = s.deck.stream? lane := by
  induction moves generalizing s with
  | nil => rfl
  | cons m moves ih => exact (ih (s.move m.1 m.2)).trans (s.stream_move m.1 m.2 lane)

/-! ## The two looks before a read -/

theorem last_demux (moves : List (Nat × Move)) :
    (∀ m ∈ moves, m.2 ≠ .demux) ∨
      ∃ early at_ late, moves = early ++ (at_, .demux) :: late ∧ ∀ m ∈ late, m.2 ≠ .demux := by
  induction moves with
  | nil => exact .inl (fun m hm => by cases hm)
  | cons m moves ih =>
    rcases ih with hnone | ⟨early, at_, late, rfl, hlate⟩
    · by_cases hm : m.2 = .demux
      · exact .inr ⟨[], m.1, moves, by rw [← hm]; rfl, hnone⟩
      · exact .inl (List.forall_mem_cons.2 ⟨hm, hnone⟩)
    · exact .inr ⟨m :: early, at_, late, rfl, hlate⟩

theorem demuxer_run {moves : List (Nat × Move)} (h : ∀ m ∈ moves, m.2 ≠ .demux) (s : Session C K D) :
    (s.run moves).demuxer = s.demuxer := by
  induction moves generalizing s with
  | nil => rfl
  | cons m moves ih =>
    rw [run_cons, ih (fun n hn => h n (List.mem_cons_of_mem m hn)), (s.move_slot m.1 (h m List.mem_cons_self)).1]

/-- Where the demuxer stands it has come by its last action, unless it has not moved. -/
theorem came_by {s : Session C K D} {moves : List (Nat × Move)}
    (h : (s.run moves).demuxer.point ≠ s.demuxer.point) :
    ∃ early at_ late, moves = early ++ (at_, .demux) :: late ∧ (∀ m ∈ late, m.2 ≠ .demux) ∧
      ((s.run early).move at_ .demux).demuxer.point = (s.run moves).demuxer.point := by
  rcases last_demux moves with hnone | ⟨early, at_, late, rfl, hlate⟩
  · exact absurd (congrArg Demuxer.point (demuxer_run hnone s)) h
  · refine ⟨early, at_, late, rfl, hlate, ?_⟩
    rw [run_append, run_cons, demuxer_run hlate]

/-- The last two actions of the demuxer were its looks at the two queues, and it found both within their limits. -/
def HasLooked (start : Session C K D) (moves : List (Nat × Move)) : Prop :=
  ∃ early first between second late, moves = early ++ (first, .demux) :: between ++ (second, .demux) :: late ∧
    (∀ m ∈ between ++ late, m.2 ≠ .demux) ∧
    ((start.run early).demuxer.point = .audioRoom ∧ (start.run early).deck.WithinLimit .audio) ∧
    ((start.run (early ++ (first, .demux) :: between)).demuxer.point = .videoRoom ∧
      (start.run (early ++ (first, .demux) :: between)).deck.WithinLimit .video)

/-- The demuxer comes to its read from its looks at the queues. -/
theorem hasLooked_of_read {start : Session C K D} (hp : start.demuxer.point = .start) {moves : List (Nat × Move)}
    (hr : (start.run moves).demuxer.point = .read) : HasLooked start moves := by
  have moved : (start.run moves).demuxer.point ≠ start.demuxer.point := by
    rw [hr, hp]
    exact nofun
  obtain ⟨mid, second, late, rfl, hlate, hread⟩ := came_by moved
  rw [hr] at hread
  obtain ⟨hvideo, hroom⟩ : (start.run mid).demuxer.point = .videoRoom ∧ (start.run mid).deck.WithinLimit .video := by
    change ((start.run mid).demuxer.step second (start.run mid).deck).2.1.point = .read at hread
    rcases finds_demux second (start.run mid).deck (start.run mid).demuxer with
      hnone | ⟨-, ⟨hq, -, -⟩ | ⟨-, hfrom⟩ | ⟨⟨-, hne⟩, -⟩⟩
    · rw [hread] at hnone
      cases hnone .video
    · rw [hread] at hq
      cases hq
    · exact hfrom
    · exact absurd hread hne
  have moved' : (start.run mid).demuxer.point ≠ start.demuxer.point := by
    rw [hvideo, hp]
    exact nofun
  obtain ⟨early, first, between, rfl, hbetween, hlook⟩ := came_by moved'
  rw [hvideo] at hlook
  obtain ⟨haudio, hroom'⟩ :
      (start.run early).demuxer.point = .audioRoom ∧ (start.run early).deck.WithinLimit .audio := by
    change ((start.run early).demuxer.step first (start.run early).deck).2.1.point = .videoRoom at hlook
    rcases finds_demux first (start.run early).deck (start.run early).demuxer with
      hnone | ⟨-, ⟨-, hfrom⟩ | ⟨hq, -, -⟩ | ⟨⟨hne, -⟩, -⟩⟩
    · rw [hlook] at hnone
      cases hnone .audio
    · exact hfrom
    · rw [hlook] at hq
      cases hq
    · exact absurd hlook hne
  exact ⟨early, first, between, second, late, rfl, List.forall_mem_append.2 ⟨hbetween, hlate⟩, ⟨haudio, hroom'⟩,
    hvideo, hroom⟩

/-- **A packet queue is over its limit by one packet at most.**  Whatever the order of the moves: the bytes that are
counted are those of the queued items, and they are no more than the limit and the largest packet that was put on the
queue so far; the queue of a stream that is not played is empty.  A packet is put only on a queue that is within its
limit, and the container is read only after both queues have been found within their limits in the same pass. -/
theorem queues_bounded (now : Nat) (config : Config) (container : C) (audio : Option (StreamInfo × D))
    (video : Option (StreamInfo × K)) (moves : List (Nat × Move)) :
    let start : Session C K D := Player.sessionOf now config container audio video
    let s := start.run moves
    (∀ lane, (s.deck.queue lane).bytes = QueueItem.total (s.deck.queue lane).items ∧
      (s.deck.queue lane).bytes ≤ config.limit lane + largest lane (start.chronicle moves) ∧
      (start.deck.stream? lane = none → (s.deck.queue lane).items = [])) ∧
    ∀ before at_ m after, moves = before ++ (at_, m) :: after →
      (∀ lane p, .put lane (.packet p) ∈ (start.run before).notes m →
        ((start.run before).deck.queue lane).bytes ≤ config.limit lane) ∧
      ∀ result, .read result ∈ (start.run before).notes m → HasLooked start before := by
  intro start s
  have law (moves : List (Nat × Move)) (lane : Lane) :
      PressureLaw config lane (start.run moves) (start.chronicle moves) :=
    pressureLaw_run now config container audio video moves lane
  constructor
  · intro lane
    refine ⟨(law moves lane).counted, (law moves lane).bounded, fun hn => ?_⟩
    exact (law moves lane).unplayed ((start.stream_run moves lane).trans hn)
  · intro before at_ m after _
    constructor
    · intro lane p hput
      obtain ⟨-, hpoint⟩ := (point_of_note hput).2 lane p rfl
      have hfound : (start.run before).demuxer.point.hasFound lane = true := by rw [hpoint]; cases lane <;> rfl
      rcases (law before lane).found hfound with hn | hle
      · rw [(law before lane).counted, (law before lane).unplayed hn]
        exact Nat.zero_le _
      · rwa [(law before lane).config_eq] at hle
    · intro result hread
      exact hasLooked_of_read rfl ((point_of_note hread).1 result rfl).2

end Session

end Playhead
