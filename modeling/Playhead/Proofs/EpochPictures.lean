import Playhead.Proofs.EndOfMedium
import Playhead.Proofs.Standing
import Playhead.TestPattern.Source
/-!
# EpochPictures — the pictures of the current timeline

The laws of the epoch hold along every run (`Session.epochLawful_run`), and so the pictures that left the ring since it
was shut last, with those that are in it, are the frames of the packets that were read since (`Session.epoch_pictures`).
-/
namespace Playhead

variable {C K D : Type}

/-- A move that has nothing to do with the worker and the ring. -/
def Move.isQuiet : Move → Bool
  | .demux | .decode | .refresh _ => false
  | _ => true

theorem Demuxer.apply_step [Container C K] {now : Nat} {d : Deck} {w : Demuxer C} {target : Float} {us : Ticks}
    {stage : SeekStage} (h : (w.step now d).2.1.point = .apply target us stage) :
    (∃ previous : SeekStage, w.point = .apply target us previous ∧ previous.next d = some stage) ∨
      w.point = .seek target ∧ us = seekMicros target ∧ stage = .first d := by
  cases hp : w.point with
  | apply target' us' previous =>
    simp only [step, hp] at h
    cases hn : previous.next d with
    | none =>
      rw [hn] at h
      cases h
    | some next =>
      rw [hn] at h
      cases h
      exact .inl ⟨previous, rfl, hn⟩
  | seek target' =>
    simp only [step, hp] at h
    split at h
    · cases h
      exact .inr ⟨rfl, rfl, rfl⟩
    · cases h
    · cases h
  | start =>
    simp only [step, hp, DemuxPoint.entry] at h
    split at h <;> cases h
  | poll =>
    simp only [step, hp] at h
    cases hs : d.pendingSeek <;> simp [hs] at h
  | top | audioRoom | videoRoom | read | videoIdle | audioIdle | ringEmpty =>
    simp only [step, hp] at h
    split at h <;> cases h
  | _ =>
    simp only [step, hp] at h
    cases h

theorem Demuxer.stage_step [Container C K] {d : Deck} {stream : StreamInfo} (hv : d.video = some stream) (now : Nat)
    (w : Demuxer C) (target : Float) (us : Ticks) : (w.step now d).2.1.point ≠ .apply target us .clearRing := by
  intro hc
  rcases Demuxer.apply_step hc with ⟨previous, -, hn⟩ | ⟨-, -, hf⟩
  · cases previous <;> simp [SeekStage.next, hv] at hn
  · unfold SeekStage.first at hf
    rw [hv] at hf
    cases ha : d.audio <;> simp [ha] at hf

theorem Demuxer.ring_step [Container C K] (now : Nat) (d : Deck) (w : Demuxer C) :
    (∃ target us, w.point = .apply target us .holdRing ∧ w.notes d = [.shut us] ∧
        (w.step now d).1.ring = d.ring.clear true) ∨
      (∃ target us, w.point = .apply target us .clearRing ∧ w.notes d = [] ∧
        (w.step now d).1.ring = d.ring.clear false) ∨
      (∀ n ∈ w.notes d, n.tells = false) ∧ (w.step now d).1.ring = d.ring := by
  have none : ∀ n ∈ ([] : List Note), n.tells = false := fun _ h => by cases h
  have one {n : Note} (h : n.tells = false) : ∀ m ∈ [n], m.tells = false := by
    intro m hm
    rwa [List.mem_singleton.1 hm]
  cases hp : w.point with
  | apply target us stage =>
    simp only [Demuxer.step, Demuxer.notes, hp]
    cases stage with
    | holdRing => exact .inl ⟨target, us, rfl, rfl, rfl⟩
    | clearRing => exact .inr (.inl ⟨target, us, rfl, rfl, rfl⟩)
    | markAudio =>
      simp only [SeekStage.act]
      cases d.audio with
      | none => exact .inr (.inr ⟨none, rfl⟩)
      | some s => exact .inr (.inr ⟨one rfl, rfl⟩)
    | markVideo =>
      simp only [SeekStage.act]
      cases d.video with
      | none => exact .inr (.inr ⟨none, rfl⟩)
      | some s => exact .inr (.inr ⟨one rfl, rfl⟩)
    | clearAudio | clearVideo => exact .inr (.inr ⟨one rfl, rfl⟩)
    | setClock | unsetEnded => exact .inr (.inr ⟨none, rfl⟩)
  | seek target =>
    simp only [Demuxer.step, Demuxer.notes, hp]
    rcases Container.seek w.container (seekMicros target) with ⟨r, c⟩
    cases r with
    | ok _ =>
      refine .inr (.inr ⟨fun n hn => ?_, rfl⟩)
      rcases List.mem_cons.1 hn with rfl | hn
      · rfl
      · rw [List.mem_singleton.1 hn]
        rfl
    | error _ => exact .inr (.inr ⟨one rfl, rfl⟩)
    | died => exact .inr (.inr ⟨one rfl, rfl⟩)
  | route p =>
    simp only [Demuxer.step, Demuxer.notes, hp]
    refine .inr (.inr ⟨fun n hn => ?_, by rw [d.route_eq]⟩)
    rcases List.mem_cons.1 hn with rfl | hn
    · rfl
    · obtain ⟨lane, -, rfl⟩ := List.mem_map.1 hn
      rfl
  | poll =>
    simp only [Demuxer.step, Demuxer.notes, hp]
    cases d.pendingSeek with
    | none => exact .inr (.inr ⟨none, trivial⟩)
    | some target => exact .inr (.inr ⟨one rfl, trivial⟩)
  | read =>
    simp only [Demuxer.step, Demuxer.notes, hp]
    split <;> exact .inr (.inr ⟨one rfl, rfl⟩)
  | retire target =>
    simp only [Demuxer.step, Demuxer.notes, hp]
    exact .inr (.inr ⟨none, by rw [d.completeSeek_eq]⟩)
  | markEnded =>
    simp only [Demuxer.step, Demuxer.notes, hp]
    exact .inr (.inr ⟨none, by rw [d.markEnded_eq]⟩)
  | _ =>
    simp only [Demuxer.step, Demuxer.notes, hp]
    exact .inr (.inr ⟨none, trivial⟩)

namespace Session

variable [Container C K] [VideoCodec K] [AudioDecoder D]

structure EpochLawful (contract : CodecContract K) (stream : StreamInfo) (codec : K) (dest : Packet → Option Lane)
    (s : Session C K D) (notes : List Note) : Prop where
  video : s.deck.video = some stream
  dest_eq : s.deck.laneOf = dest
  stage : ∀ target us, s.demuxer.point ≠ .apply target us .clearRing
  queued : (Epoch.after dest {} notes).Queued stream s.deck.videoQueue.items (s.demuxer.point.phase .video)
  worker : ∃ w, s.decoder = some w ∧ WorkerLaw contract stream codec w s.deck.ring (Epoch.after dest {} notes)

theorem quiet_move (s : Session C K D) (now : Nat) {m : Move} (hm : m.isQuiet = true) :
    (∀ n ∈ s.notes m, n.tells = false) ∧ (s.move now m).deck.ring = s.deck.ring := by
  cases m with
  | demux | decode | refresh master => cases hm
  | takeAudio =>
    refine ⟨fun n hn => ?_, rfl⟩
    simp only [notes] at hn
    cases ht : s.takeAudio.1 with
    | item i =>
      rw [ht] at hn
      rw [List.mem_singleton.1 hn]
      rfl
    | _ =>
      rw [ht] at hn
      cases hn
  | requestSeek target =>
    refine ⟨fun n hn => ?_, rfl⟩
    rw [List.mem_singleton.1 hn]
    rfl
  | setPaused on => exact ⟨fun n hn => (by cases hn), rfl⟩
  | beginClose => exact ⟨fun n hn => (by cases hn), rfl⟩

theorem EpochLawful.worker_of_quiet {contract : CodecContract K} {stream : StreamInfo} {codec : K}
    {dest : Packet → Option Lane} {s : Session C K D} {notes : List Note}
    (h : s.EpochLawful contract stream codec dest notes) {now : Nat} {m : Move} (hm : m ≠ .decode)
    (hq : (∀ n ∈ s.notes m, n.tells = false) ∧ (s.move now m).deck.ring = s.deck.ring) :
    ∃ w, (s.move now m).decoder = some w ∧
      WorkerLaw contract stream codec w (s.move now m).deck.ring (Epoch.after dest {} (notes ++ s.notes m)) := by
  obtain ⟨w, hw, law⟩ := h.worker
  obtain ⟨hs, ht, hl⟩ := Epoch.after_of_not_tells hq.1 (Epoch.after dest {} notes)
  refine ⟨w, (s.decoder_move now hm).trans hw, ?_⟩
  rw [hq.2, Epoch.after_append]
  exact law.congr hs ht hl

theorem EpochLawful.move {contract : CodecContract K} {stream : StreamInfo} {codec : K} {dest : Packet → Option Lane}
    {s : Session C K D} {notes : List Note} (h : s.EpochLawful contract stream codec dest notes)
    (hfresh : contract.fresh codec) (now : Nat) (m : Move) :
    (s.move now m).EpochLawful contract stream codec dest (notes ++ s.notes m) := by
  have hv : (s.move now m).deck.video = some stream := (s.move_streams now m).1.trans h.video
  have hd : (s.move now m).deck.laneOf = dest := (s.laneOf_move now m).trans h.dest_eq
  have stage : ∀ target us, (s.move now m).demuxer.point ≠ .apply target us .clearRing := by
    by_cases hm : m = .demux
    · rw [hm]
      exact Demuxer.stage_step h.video now s.demuxer
    · rw [(s.move_slot now hm).1]
      exact h.stage
  have hs : s.deck.stream? .video = some stream := h.video
  have step := Session.laneStep hs now m
  rw [h.dest_eq] at step
  have queued := h.queued.step step
  rw [← Epoch.after_append] at queued
  refine ⟨hv, hd, stage, queued, ?_⟩
  obtain ⟨w, hw, law⟩ := h.worker
  cases m with
  | demux =>
    rcases s.demuxer.ring_step now s.deck with ⟨target, us, -, hns, hring⟩ | ⟨target, us, hp, -⟩ | ⟨hns, hring⟩
    · refine ⟨w, hw, ?_⟩
      change WorkerLaw contract stream codec w (s.demuxer.step now s.deck).1.ring
        (Epoch.after dest {} (notes ++ s.demuxer.notes s.deck))
      rw [hring, hns, Epoch.after_append]
      exact law.shut us
    · exact absurd hp (h.stage target us)
    · exact h.worker_of_quiet (by simp) ⟨hns, hring⟩
  | decode =>
    have hns : s.notes .decode = w.notes s.deck := by
      simp only [Session.notes, hw]
      rfl
    have hmove : (s.move now .decode).decoder = some (w.step s.deck).2.1 ∧
        (s.move now .decode).deck.ring = (w.step s.deck).1.ring := by
      simp only [Session.move, Session.decode, hw]
      exact ⟨trivial, trivial⟩
    have front := queued.front
    rw [hns, Epoch.after_append] at front
    refine ⟨_, hmove.1, ?_⟩
    rw [hmove.2, hns, Epoch.after_append]
    exact law.decode hfresh front
  | refresh master =>
    by_cases hp : s.deck.paused = true
    · exact h.worker_of_quiet (by simp) ⟨by simp [Session.notes, hp], by simp [Session.move, hp]⟩
    · have hdec : (s.move now (.refresh master)).decoder = s.decoder := s.decoder_move now (by simp)
      refine ⟨w, hdec.trans hw, ?_⟩
      simp only [Session.move, Session.notes, hp, Bool.false_eq_true, if_false, Epoch.after_append]
      exact law.refresh master s.deck.config.threshold
  | takeAudio | requestSeek target | setPaused on | beginClose =>
    exact h.worker_of_quiet (by simp) (s.quiet_move now rfl)

theorem epochLawful_run {contract : CodecContract K} (now : Nat) (config : Config) (container : C)
    (audio : Option (StreamInfo × D)) {stream : StreamInfo} {codec : K} (hfresh : contract.fresh codec)
    (moves : List (Nat × Move)) :
    let start : Session C K D := Player.sessionOf now config container audio (some (stream, codec))
    (start.run moves).EpochLawful contract stream codec start.deck.laneOf (start.chronicle moves) := by
  intro start
  have first : start.EpochLawful contract stream codec start.deck.laneOf [] :=
    ⟨rfl, rfl, fun _ _ hc => (by cases hc), rfl, _, rfl, workerLaw_start contract stream codec _⟩
  exact run_keeps (fun _ _ now m h => h.move hfresh now m) start [] first moves

theorem pictures_of_no_video (now : Nat) (config : Config) (container : C) (audio : Option (StreamInfo × D))
    (dest : Packet → Option Lane) (moves : List (Nat × Move)) :
    let start : Session C K D := Player.sessionOf now config container audio none
    (Epoch.after dest {} (start.chronicle moves)).left = [] ∧ (start.run moves).deck.ring.pictures = [] := by
  intro start
  have keep : ∀ (s : Session C K D) (notes : List Note) (now : Nat) (m : Move),
      (s.decoder = none ∧ (Epoch.after dest {} notes).left = [] ∧ s.deck.ring.pictures = []) →
      ((s.move now m).decoder = none ∧ (Epoch.after dest {} (notes ++ s.notes m)).left = [] ∧
        (s.move now m).deck.ring.pictures = []) := by
    intro s notes now m ⟨hw, hleft, hring⟩
    rw [Epoch.after_append]
    have quiet {m : Move} (hm : m ≠ .decode)
        (hq : (∀ n ∈ s.notes m, n.tells = false) ∧ (s.move now m).deck.ring = s.deck.ring) :
        (s.move now m).decoder = none ∧ ((Epoch.after dest {} notes).after dest (s.notes m)).left = [] ∧
          (s.move now m).deck.ring.pictures = [] := by
      refine ⟨(s.decoder_move now hm).trans hw, (Epoch.after_of_not_tells hq.1 _).2.2.trans hleft, ?_⟩
      rw [hq.2]
      exact hring
    cases m with
    | demux =>
      rcases s.demuxer.ring_step now s.deck with ⟨target, us, -, hns, hr⟩ | ⟨target, us, -, hns, hr⟩ | hq
      · refine ⟨hw, ?_, ?_⟩
        · change (Epoch.after dest _ (s.demuxer.notes s.deck)).left = []
          rw [hns]
          rfl
        · change (s.demuxer.step now s.deck).1.ring.pictures = []
          rw [hr]
          rfl
      · refine ⟨hw, ?_, ?_⟩
        · change (Epoch.after dest _ (s.demuxer.notes s.deck)).left = []
          rw [hns]
          exact hleft
        · change (s.demuxer.step now s.deck).1.ring.pictures = []
          rw [hr]
          rfl
      · exact quiet (by simp) hq
    | decode =>
      simp only [Session.move, Session.decode, Session.notes, hw]
      exact ⟨trivial, hleft, hring⟩
    | refresh master =>
      by_cases hp : s.deck.paused = true
      · exact quiet (by simp) ⟨by simp [Session.notes, hp], by simp [Session.move, hp]⟩
      · have hout := s.deck.ring.outgoing_append master s.deck.config.threshold
        rw [hring] at hout
        obtain ⟨ho, hr⟩ := List.append_eq_nil_iff.1 hout
        simp only [Session.move, Session.notes, hp, Bool.false_eq_true, if_false]
        refine ⟨hw, ?_, hr⟩
        change (Epoch.after dest {} notes).left ++ s.deck.ring.outgoing master s.deck.config.threshold = []
        rw [ho, hleft]
        rfl
    | takeAudio | requestSeek target | setPaused on | beginClose => exact quiet (by simp) (s.quiet_move now rfl)
  exact (run_keeps keep start [] ⟨rfl, rfl, rfl⟩ moves).2

theorem notes_shut (s : Session C K D) (now : Nat) (m : Move) :
    (∃ us, s.notes m = [.shut us] ∧ (s.move now m).demuxer.point.inHand = []) ∨
      ∀ us, .shut us ∉ s.notes m := by
  have silent (h : ∀ n ∈ s.notes m, n.tells = false) (us : Ticks) : .shut us ∉ s.notes m := by
    intro hn
    cases h _ hn
  cases m with
  | demux =>
    rcases s.demuxer.ring_step now s.deck with ⟨target, us, hp, hns, -⟩ | ⟨target, us, -, hns, -⟩ | ⟨hq, -⟩
    · refine .inl ⟨us, hns, ?_⟩
      change (s.demuxer.step now s.deck).2.1.point.inHand = []
      simp only [Demuxer.step, hp]
      rfl
    · refine .inr (fun us hn => ?_)
      change Note.shut us ∈ s.demuxer.notes s.deck at hn
      rw [hns] at hn
      cases hn
    · exact .inr (silent hq)
  | decode =>
    refine .inr (fun us hn => ?_)
    simp only [notes] at hn
    cases hw : s.decoder with
    | none =>
      rw [hw] at hn
      cases hn
    | some w =>
      rw [hw] at hn
      simp only [Option.elim_some, Decoder.notes] at hn
      split at hn
      · cases ht : (s.deck.videoQueue.take s.deck.stop).1 with
        | item i =>
          rw [ht] at hn
          cases List.mem_singleton.1 hn
        | _ =>
          rw [ht] at hn
          cases hn
      · cases hn
  | refresh master =>
    refine .inr (fun us hn => ?_)
    simp only [notes] at hn
    split at hn
    · cases hn
    · cases List.mem_singleton.1 hn
  | takeAudio | requestSeek target | setPaused on | beginClose => exact .inr (silent (s.quiet_move now rfl).1)

/-- The packets of an epoch that were read are those that were routed, but for the one that is on its way. -/
theorem reads_epoch {start : Session C K D} (hp : start.demuxer.point.inHand = []) (dest : Packet → Option Lane)
    (moves : List (Nat × Move)) :
    (Epoch.after dest {} (start.chronicle moves)).read =
      (Epoch.after dest {} (start.chronicle moves)).packets ++
        (start.run moves).demuxer.point.inHand.filter (fun p => dest p = some .video) := by
  refine run_keeps (P := fun s notes => (Epoch.after dest {} notes).read = (Epoch.after dest {} notes).packets ++
    s.demuxer.point.inHand.filter (fun p => dest p = some .video)) (fun s notes now m h => ?_) start [] ?_ moves
  · rw [Epoch.after_append]
    rcases s.notes_shut now m with ⟨us, hns, hin⟩ | hns
    · rw [hns, hin]
      rfl
    · obtain ⟨hr, hp⟩ := Epoch.after_of_not_shut hns (Epoch.after dest {} notes)
      rw [hr, hp, h, List.append_assoc, ← List.filter_append, s.reads_step now m, List.filter_append, List.append_assoc]
  · rw [hp]
    rfl

omit [Container C K] [AudioDecoder D] in
/-- Between two seeks, what is not queued any more has been taken. -/
theorem EpochLawful.taken_of_idle {contract : CodecContract K} {stream : StreamInfo} {codec : K}
    {dest : Packet → Option Lane} {s : Session C K D} {notes : List Note}
    (h : s.EpochLawful contract stream codec dest notes) (hphase : s.demuxer.point.phase .video = .settled)
    (hidle : s.deck.videoQueue.isIdle = true) :
    (Epoch.after dest {} notes).taken = (Epoch.after dest {} notes).toTimeline.items stream := by
  obtain ⟨hitems, -⟩ := s.deck.videoQueue.isIdle_iff.1 hidle
  have hq := h.queued
  rw [hphase, hitems] at hq
  exact (List.append_nil _).symm.trans hq

/-- **The pictures of the current timeline, each once and in order.**  For every run and every codec that keeps its
promise: the pictures that left the ring since it was shut last, followed by those that are in it, are the frames that
the first of the video packets read since then come to, from the marker of the seek on, each at its time and looking as
it should; and every one of them is held by one of these packets.  When the worker has come for the next item and
nothing is on its way to it, they are the frames of all these packets. -/
theorem epoch_pictures (contract : CodecContract K) (now : Nat) (config : Config) (container : C)
    (audio : Option (StreamInfo × D)) (video : Option (StreamInfo × K)) (hfresh : ∀ v ∈ video, contract.fresh v.2)
    (moves : List (Nat × Move)) :
    let start : Session C K D := Player.sessionOf now config container audio video
    let s := start.run moves
    let e := Epoch.after start.deck.laneOf {} (start.chronicle moves)
    (video = none → e.left ++ s.deck.ring.pictures = []) ∧
    ∀ stream codec, video = some (stream, codec) →
      ∃ w line heard rest frames inside l, s.decoder = some w ∧ line.Opens contract stream codec e.seek ∧
        e.read = heard ++ rest ∧ Decoded contract stream line heard frames inside l ∧
        e.left ++ s.deck.ring.pictures = frames.map Accepted.picture ∧
        (∀ a ∈ frames, ∃ p ∈ heard, contract.holds p a.info a.look) ∧
        (w.ending? = none → s.demuxer.point.phase .video = .settled → s.demuxer.point.inHand = [] →
          s.deck.videoQueue.isIdle = true → rest = [] ∧ inside = false) := by
  intro start s e
  constructor
  · intro hv
    subst hv
    obtain ⟨hleft, hring⟩ := pictures_of_no_video (C := C) (K := K) (D := D) now config container audio
      start.deck.laneOf moves
    exact List.append_eq_nil_iff.2 ⟨hleft, hring⟩
  · intro stream codec hv
    subst hv
    have hfresh : contract.fresh codec := hfresh _ rfl
    have law : s.EpochLawful contract stream codec start.deck.laneOf (start.chronicle moves) :=
      epochLawful_run now config container audio hfresh moves
    have ends : s.EndLawful := endLawful_run now config container audio (some (stream, codec)) moves
    let onWay := s.demuxer.point.inHand.filter (fun p => start.deck.laneOf p = some .video)
    have reads : e.read = e.packets ++ onWay := reads_epoch rfl start.deck.laneOf moves
    obtain ⟨w, hw, hlaw⟩ := law.worker
    obtain ⟨line, heard, rest, inside, l, hopens, hpackets, ⟨frames, hd, hpics⟩, hall⟩ :=
      hlaw.standing.shows hfresh law.queued.front
    have hheld := hd.of_packet (hopens.fresh hfresh)
    refine ⟨w, line, heard, rest ++ onWay, frames, inside, l, hw, hopens, ?_, hd, hpics, hheld, ?_⟩
    · rw [reads, hpackets, List.append_assoc]
    · intro hend hphase hhand hidle
      obtain ⟨hrest, hinside⟩ := hall (ends.point_of_idle hw hidle hend) (law.taken_of_idle hphase hidle)
      have hway : onWay = [] := by
        change s.demuxer.point.inHand.filter _ = []
        rw [hhand]
        rfl
      rw [hrest, hway]
      exact ⟨rfl, hinside⟩

/-- A seek in the middle of the test pattern: the two frames behind it are shown, and then nothing is left to come. -/
theorem epoch_pictures_test_pattern :
    let source := (TestPattern.Source.new 1 4).withSize 2 1
    let codec : TestPattern.Codec := { width := 2, height := 1 }
    let start : Session TestPattern.Source TestPattern.Codec Empty :=
      Player.sessionOf 0 {} source none (some (source.videoStream, codec))
    let moves := (List.range 90).map (fun k =>
      (k, if k = 20 then .requestSeek 0.5 else if k % 10 = 5 then Move.refresh none
        else if k % 2 = 0 then .decode else .demux))
    let s := start.run moves
    let e := Epoch.after start.deck.laneOf {} (start.chronicle moves)
    TestPattern.Codec.contract.fresh codec ∧ e.seek = some 500000 ∧
      e.left.map (·.pts) = [0.5, 0.75] ∧
      s.decoder.all (fun w => w.ending? = none) = true ∧ s.demuxer.point.phase .video = .settled ∧
      s.demuxer.point.inHand = [] ∧ s.deck.videoQueue.isIdle = true ∧
      ∃ line frames l, line.Opens TestPattern.Codec.contract source.videoStream codec (some 500000) ∧
        Decoded TestPattern.Codec.contract source.videoStream line e.read frames false l ∧
        e.left ++ s.deck.ring.pictures = frames.map Accepted.picture ∧
        ∀ a ∈ frames, ∃ p ∈ e.read, a.info.timestamp = p.pts := by
  intro source codec start moves s e
  have fresh : ∀ v ∈ some (source.videoStream, codec), TestPattern.Codec.contract.fresh v.2 := by
    intro v hv
    cases hv
    rfl
  have there : e.seek = some 500000 ∧ e.left.map (·.pts) = [0.5, 0.75] ∧
      s.decoder.all (fun w => w.ending? = none) = true ∧ s.demuxer.point.phase .video = .settled ∧
      s.demuxer.point.inHand = [] ∧ s.deck.videoQueue.isIdle = true := by decide +kernel
  clear_value moves
  obtain ⟨sought, shown, alive, settled, hand, idle⟩ := there
  refine ⟨rfl, sought, shown, alive, settled, hand, idle, ?_⟩
  obtain ⟨-, hall⟩ := epoch_pictures TestPattern.Codec.contract 0 {} source (none : Option (StreamInfo × Empty)) _
    fresh moves
  obtain ⟨w, line, heard, rest, frames, inside, l, hw, opens, read, decoded, pictures, held, complete⟩ := hall _ _ rfl
  rw [show s.decoder = some w from hw] at alive
  obtain ⟨rfl, rfl⟩ := complete (of_decide_eq_true alive) settled hand idle
  rw [List.append_nil] at read
  rw [sought] at opens
  refine ⟨line, frames, l, opens, read ▸ decoded, pictures, fun a ha => ?_⟩
  obtain ⟨p, hp, ht, -⟩ := held a ha
  exact ⟨p, read ▸ hp, ht⟩

end Session
end Playhead
