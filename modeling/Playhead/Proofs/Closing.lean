import Playhead.Proofs.Unwinding
/-!
# Closing — a session that is let go has no workers left

To end a session is to raise its flag and to wait for the workers.  The demuxer needs nineteen actions at most, and from
then on waiting longer makes no difference (`joinDemuxer_of_le`); the decode worker needs as many as its codec has
frames for (`isOver_close`).  A session that gets no threads for its workers is ended in the same way, and leaves
nobody behind either (`launch_over`).
-/
namespace Playhead

namespace Session

variable {C K D : Type} [Container C K] [VideoCodec K] {s : Session C K D}

def isOver (s : Session C K D) : Bool := s.demuxer.isGone && s.decoder.all (·.isGone)

/-! ## Waiting for the demuxer -/

omit [VideoCodec K] in
theorem stop_demux (hstop : s.deck.stop = true) (now : Nat) : (s.demux now).1.deck.stop = true := by
  change (s.demuxer.step now s.deck).1.stop = true
  rw [s.demuxer.stop_step, hstop, Bool.true_or]

omit [VideoCodec K] in
theorem joinDemuxer_of_gone (hg : s.demuxer.isGone = true) (now steps : Nat) : s.joinDemuxer now steps = (s, []) := by
  cases steps with
  | zero => rfl
  | succ steps => simp only [joinDemuxer, hg, if_true]

omit [VideoCodec K] in
theorem joinDemuxer_of_le {n : Nat} (hstop : s.deck.stop = true) (hn : s.demuxer.point.toGo ≤ n) (now : Nat) :
    let t := (s.joinDemuxer now n).1
    t.demuxer.isGone = true ∧ t.deck.stop = true ∧ t.decoder = s.decoder ∧
      ∀ steps, n ≤ steps → (s.joinDemuxer now steps).1 = t := by
  induction n generalizing s with
  | zero =>
    have hg : s.demuxer.isGone = true := s.demuxer.isGone_iff.2 (Nat.le_zero.1 hn)
    exact ⟨hg, hstop, rfl, fun steps _ => by rw [joinDemuxer_of_gone hg]; rfl⟩
  | succ n ih =>
    cases hg : s.demuxer.isGone with
    | true =>
      simp only [joinDemuxer_of_gone hg]
      exact ⟨hg, hstop, trivial, fun _ _ => trivial⟩
    | false =>
      have nearer : (s.demux now).1.demuxer.point.toGo ≤ n := by
        have := s.demuxer.toGo_step_le now hstop
        change (s.demuxer.step now s.deck).2.1.point.toGo ≤ n
        omega
      obtain ⟨gone, stopped, decoder, settled⟩ := ih (stop_demux hstop now) nearer
      simp only [joinDemuxer, hg, Bool.false_eq_true, if_false]
      refine ⟨gone, stopped, decoder, fun steps hle => ?_⟩
      cases steps with
      | zero => cases hle
      | succ steps =>
        simp only [joinDemuxer, hg, Bool.false_eq_true, if_false]
        exact settled steps (Nat.le_of_succ_le_succ hle)

/-! ## Waiting for the decode worker -/

def decodeOn (s : Session C K D) : Nat → Session C K D
  | 0 => s
  | n + 1 => s.decode.1.decodeOn n

omit [Container C K] in
theorem joinDecoder_over {n steps : Nat} (hover : (s.decodeOn n).decoder.all (·.isGone) = true) (hle : n ≤ steps) :
    (s.joinDecoder steps).1.decoder.all (·.isGone) = true := by
  induction steps generalizing s n with
  | zero =>
    cases Nat.le_zero.1 hle
    exact hover
  | succ steps ih =>
    unfold joinDecoder
    split
    · assumption
    · next h =>
      cases n with
      | zero => exact absurd hover h
      | succ n => exact ih hover (Nat.le_of_succ_le_succ hle)

omit [Container C K] in
theorem demuxer_joinDecoder (s : Session C K D) (steps : Nat) : (s.joinDecoder steps).1.demuxer = s.demuxer := by
  induction steps generalizing s with
  | zero => rfl
  | succ steps ih =>
    unfold joinDecoder
    split
    · rfl
    · refine (ih s.decode.1).trans ?_
      unfold decode
      split <;> rfl

omit [Container C K] in
theorem over_of_take (hstop : s.deck.stop = true) (hd : ∀ w ∈ s.decoder, w.point = .take) :
    (s.decodeOn 2).decoder.all (·.isGone) = true := by
  cases hw : s.decoder with
  | none => simp only [decodeOn, decode, hw, Option.all_none]
  | some w => simp [decodeOn, decode, hw, Decoder.step, hd w hw, hstop, PacketQueue.take_stopped, Decoder.isGone]

/-- So many actions of the decode worker are at least as many of one that looks and acts in turn. -/
theorem decodeOn_watched [AudioDecoder D] (s : Session C K D) (n : Nat) :
    ∃ instants : List Nat, n ≤ instants.length ∧
      ({ session := s } : Watched C K D).run (Watched.decodes instants) = { session := s.decodeOn n } := by
  induction n generalizing s with
  | zero => exact ⟨[], Nat.le_refl 0, rfl⟩
  | succ n ih =>
    obtain ⟨first, hfirst, hrun⟩ := Watched.decodes_of_decode s
    obtain ⟨rest, hlen, hrest⟩ := ih s.decode.1
    refine ⟨first ++ rest, ?_, ?_⟩
    · have := List.length_pos_iff.2 hfirst
      rw [List.length_append]
      omega
    · rw [Watched.decodes, List.map_append, Watched.run_append]
      change Watched.run (Watched.run _ (Watched.decodes first)) (Watched.decodes rest) = _
      rw [hrun, hrest]
      rfl

theorem decodeOn_over [AudioDecoder D]
    (finite : WellFounded (fun k' k : K => ∃ f, VideoCodec.receive k = (.ok (some f), k')))
    (hstop : s.deck.stop = true) : ∃ n, (s.decodeOn n).decoder.all (·.isGone) = true := by
  obtain ⟨n, hn⟩ := Watched.ends_of_stop (x := { session := s }) finite hstop
  obtain ⟨instants, hlen, hrun⟩ := s.decodeOn_watched n
  refine ⟨n, ?_⟩
  have hover := hn instants hlen
  rwa [hrun] at hover

/-! ## The end of a session -/

theorem isOver_close {n k steps : Nat} {now : Nat} (hn : s.demuxer.point.toGo ≤ n)
    (hk : ((s.beginClose.1.joinDemuxer now n).1.decodeOn k).decoder.all (·.isGone) = true) (hle : n ≤ steps)
    (hle' : k ≤ steps) : (s.close now steps).1.isOver = true := by
  obtain ⟨gone, -, -, settled⟩ := joinDemuxer_of_le (s := s.beginClose.1) rfl hn now
  have joined := settled steps hle
  change ((s.beginClose.1.joinDemuxer now steps).1.joinDecoder steps).1.isOver = true
  rw [joined, isOver, demuxer_joinDecoder, gone, joinDecoder_over hk hle']
  rfl

/-- **A session that is closed has no workers left**, if the codec comes to the end of its frames. -/
theorem close_over [AudioDecoder D]
    (finite : WellFounded (fun k' k : K => ∃ f, VideoCodec.receive k = (.ok (some f), k'))) (s : Session C K D)
    (now : Nat) : ∃ enough, ∀ steps, enough ≤ steps → (s.close now steps).1.isOver = true := by
  have hn : s.demuxer.point.toGo ≤ 19 := s.demuxer.point.toGo_le
  obtain ⟨-, stopped, -, -⟩ := joinDemuxer_of_le (s := s.beginClose.1) rfl hn now
  obtain ⟨k, hk⟩ := decodeOn_over finite stopped
  exact ⟨max 19 k, fun steps hle =>
    isOver_close hn hk (Nat.le_trans (Nat.le_max_left _ _) hle) (Nat.le_trans (Nat.le_max_right _ _) hle)⟩

/-- **A session that gets no threads leaves no workers behind.** -/
theorem launch_over (threads : Threads) (now : Nat) {steps : Nat} (hsteps : 2 ≤ steps)
    (hd : ∀ w ∈ s.decoder, w.point = .take) {e : PlayError} (h : (s.launch threads now steps).1 = .error e) :
    (s.launch threads now steps).2.1.isOver = true := by
  unfold launch at h ⊢
  split at h
  · next w reason _ =>
    exact isOver_close (n := 0) (k := 0) (Nat.le_refl 0) rfl (Nat.zero_le _) (Nat.zero_le _)
  · next reason _ =>
    exact isOver_close (n := 0) (k := 2) (Nat.le_refl 0) (over_of_take rfl hd) (Nat.zero_le _) hsteps
  · cases h

end Session

end Playhead
