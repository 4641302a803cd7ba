import Playhead.Proofs.HostRuns
/-!
# Rounds — the workers and the driver take turns

A round is one pass of the demuxer through its loop, the decode worker until it has to wait, and one update.  The pass
either finds the video queue over its limit or makes one read (`Demuxer.turn_cases`).  What is still to come is said
beforehand: the results of the reads (`Container.Reads`), and how many frames the codec yields for the items that it is
going to be given (`VideoCodec.Yields`).  From every place the decode worker comes to one where it waits, and it
loses no picture without a frame less being to come (`Decoder.decodes`).
-/
namespace Playhead

variable {C K D : Type}

/-! ## What is still to come -/

namespace Container

variable [Container C K]

def after (c : C) : Nat → C
  | 0 => c
  | n + 1 => after (Container.read c).2 n

/-- The end has come, and stays. -/
def Exhausted (c : C) : Prop := ∀ n, (Container.read (after c n)).1 = .ok none

/-- Reading gives these results, one after the other, and behind them the end for ever. -/
def Reads (c : C) : List (Outcome (Option Packet)) → Prop
  | [] => Exhausted c
  | r :: items => (Container.read c).1 = r ∧ r ≠ .died ∧ Reads (Container.read c).2 items

theorem Exhausted.read {c : C} (h : Exhausted c) :
    (Container.read c).1 = .ok none ∧ Exhausted (Container.read c).2 := ⟨h 0, fun n => h (n + 1)⟩

theorem exhausted_of_read {c : C} (h : Container.read c = (.ok none, c)) : Exhausted c := by
  intro n
  induction n with
  | zero => rw [after, h]
  | succ n ih =>
    rw [after, h]
    exact ih

end Container

def videoItem? (stream : StreamInfo) : Outcome (Option Packet) → Option QueueItem
  | .ok (some p) => if p.stream = stream.index then some (.packet p) else none
  | _ => none

/-- **A codec that never fails yields so many frames**, if it is given these items one after the other, `inside` a
packet or between two; whatever frames are converted, and into whatever buffers. -/
inductive VideoCodec.Yields [VideoCodec K] : K → (inside : Bool) → List QueueItem → (frames : Nat) → Prop
  | rest (k : K) : Yields k false [] 0
  | send {k k' : K} {p : Packet} {items : List QueueItem} {n : Nat} (hs : VideoCodec.send k p = (.ok (), k'))
      (h : Yields k' true items n) : Yields k false (.packet p :: items) n
  | flush {k k' : K} {start : Ticks} {items : List QueueItem} {n : Nat} (hf : VideoCodec.flush k = some k')
      (h : Yields k' false items n) : Yields k false (.marker start :: items) n
  | done {k k' : K} {items : List QueueItem} {n : Nat} (hr : VideoCodec.receive k = (.ok none, k'))
      (h : Yields k' false items n) : Yields k true items n
  | frame {k k' : K} {f : FrameInfo} {items : List QueueItem} {n : Nat} (hr : VideoCodec.receive k = (.ok (some f), k'))
      (skipped : Yields k' true items n) (hc : ∀ buffer, (VideoCodec.convert k' buffer).1 = .ok ())
      (converted : ∀ buffer, Yields (VideoCodec.convert k' buffer).2.2 true items n) : Yields k true items (n + 1)

/-- How many frames the worker is still going to receive, if these items are what it takes.  A worker that is over was
stopped, and has not failed. -/
def Decoder.Yields [VideoCodec K] (w : Decoder K) (items : List QueueItem) (n : Nat) : Prop :=
  match w.point with
  | .take | .resetRing _ => VideoCodec.Yields w.codec false items n
  | .flushCodec start => VideoCodec.Yields w.codec false (.marker start :: items) n
  | .send p => VideoCodec.Yields w.codec false (.packet p :: items) n
  | .receive | .commit _ => VideoCodec.Yields w.codec true items n
  | .place _ | .convert _ => ∀ buffer, (VideoCodec.convert w.codec buffer).1 = .ok () ∧
      VideoCodec.Yields (VideoCodec.convert w.codec buffer).2.2 true items n
  | .leaving how | .gone how => how = .finished

def DecodePoint.inHand : DecodePoint → Nat
  | .place _ | .convert _ | .commit _ => 1
  | _ => 0

/-! ## A round -/

/-- The decode worker goes on until it has to wait. -/
inductive Decoder.Decodes [VideoCodec K] : Deck → Decoder K → Deck → Decoder K → Prop
  | wait {d : Deck} {w : Decoder K} (h : w.isWaiting d = true) : Decodes d w d w
  | step {d d' : Deck} {w w' : Decoder K} (h : w.isWaiting d = false)
      (hrest : Decodes (w.step d).1 (w.step d).2.1 d' w') : Decodes d w d' w'

namespace Session

variable [Container C K] [VideoCodec K] [AudioDecoder D]

def passed (now : Nat) (s : Session C K D) : Session C K D :=
  s.withDemuxer (s.demuxer.turn now s.deck).1 (s.demuxer.turn now s.deck).2.1

/-- One pass of the demuxer, the decode worker until it has to wait, one update. -/
inductive Round (now : Nat) (s : Session C K D) : Session C K D → Prop
  | mk {w w' : Decoder K} {d : Deck} (hw : s.decoder = some w) (h : w.Decodes (s.passed now).deck d w') :
      Round now s (((s.passed now).withDecoder d w').move now
        (.refresh (((s.passed now).withDecoder d w').masterReading now)))

/-- So many rounds, each at its instant. -/
inductive Rounds : (instants : Nat → Nat) → Session C K D → Nat → Session C K D → Prop
  | none (instants : Nat → Nat) (s : Session C K D) : Rounds instants s 0 s
  | next {instants : Nat → Nat} {n : Nat} {s t u : Session C K D} (hr : s.Round (instants 0) t)
      (h : Rounds (fun i => instants (i + 1)) t n u) : Rounds instants s (n + 1) u

end Session

/-! ## A pass of the demuxer -/

namespace Demuxer

variable [Container C K]

/-- From one deck and worker to others at rest, by so many steps. -/
inductive Comes (now : Nat) : Deck → Demuxer C → Nat → Deck → Demuxer C → Prop
  | rest {d : Deck} {w : Demuxer C} (h : w.point.isRest = true) : Comes now d w 0 d w
  | step {d d' : Deck} {w w' : Demuxer C} {k : Nat} (h : w.point.isRest = false)
      (hrest : Comes now (w.step now d).1 (w.step now d).2.1 k d' w') : Comes now d w (k + 1) d' w'

theorem Comes.toRest {now k : Nat} {d d' : Deck} {w w' : Demuxer C} (h : Comes now d w k d' w') {steps : Nat}
    (hk : k ≤ steps) : (w.toRest now steps d).1 = d' ∧ (w.toRest now steps d).2.1 = w' := by
  induction h generalizing steps with
  | rest h =>
    cases steps with
    | zero => exact ⟨rfl, rfl⟩
    | succ steps =>
      unfold Demuxer.toRest
      rw [if_pos h]
      exact ⟨rfl, rfl⟩
  | step h _ ih =>
    cases steps with
    | zero => cases hk
    | succ steps =>
      unfold Demuxer.toRest
      rw [if_neg (Bool.eq_false_iff.1 h)]
      exact ih (Nat.le_of_succ_le_succ hk)

theorem turn_eq {now k : Nat} {d d' : Deck} {c : C} {w' : Demuxer C}
    (h : Comes now (step now d (⟨c, .top⟩ : Demuxer C)).1 (step now d (⟨c, .top⟩ : Demuxer C)).2.1 k d' w')
    (hk : k ≤ passBound) : (turn now d ⟨c, .top⟩).1 = d' ∧ (turn now d ⟨c, .top⟩).2.1 = w' := by
  have ht := h.toRest hk
  unfold turn
  generalize passBound = steps at ht ⊢
  exact ht

/-- A demuxer that is at the entry of its loop makes the pass that it would make at the top. -/
theorem turn_start {d : Deck} {stream : StreamInfo} (hv : d.video = some stream) (now : Nat) (c : C) :
    turn now d (⟨c, .start⟩ : Demuxer C) = turn now d ⟨c, .top⟩ := by
  have hentry : DemuxPoint.entry d = .top := by simp [DemuxPoint.entry, hv]
  simp only [turn, entered, hentry]

theorem Comes.after {now k : Nat} {d d₁ d' : Deck} {w w₁ w' : Demuxer C} {e : Option Event}
    (h : Comes now d₁ w₁ k d' w') (hp : w.point.isRest = false) (hs : w.step now d = (d₁, w₁, e)) :
    Comes now d w (k + 1) d' w' := by
  refine .step hp ?_
  rw [hs]
  exact h

variable {d : Deck} {c : C}

theorem comes_idle (now : Nat) (hpending : d.pendingSeek = none) :
    ∃ k ≤ 4, Comes now d (⟨c, .videoIdle⟩ : Demuxer C) k (if d.isDrained then { d with ended := true } else d)
      ⟨c, .top⟩ := by
  have top (d : Deck) : Comes now d (⟨c, .top⟩ : Demuxer C) 0 d ⟨c, .top⟩ := .rest rfl
  have drained : d.isDrained = (d.videoQueue.isIdle && d.audioQueue.isIdle && d.ring.isEmpty) := rfl
  cases hv : d.videoQueue.isIdle with
  | false =>
    have video : (⟨c, .videoIdle⟩ : Demuxer C).step now d = (d, ⟨c, .top⟩, none) := by
      simp only [step, hv]
      rfl
    rw [drained, hv]
    exact ⟨1, by decide, (top d).after rfl video⟩
  | true =>
    have video : (⟨c, .videoIdle⟩ : Demuxer C).step now d = (d, ⟨c, .audioIdle⟩, none) := by
      simp only [step, hv]
      rfl
    cases ha : d.audioQueue.isIdle with
    | false =>
      have audio : (⟨c, .audioIdle⟩ : Demuxer C).step now d = (d, ⟨c, .top⟩, none) := by
        simp only [step, ha]
        rfl
      rw [drained, hv, ha]
      exact ⟨2, by decide, ((top d).after rfl audio).after rfl video⟩
    | true =>
      have audio : (⟨c, .audioIdle⟩ : Demuxer C).step now d = (d, ⟨c, .ringEmpty⟩, none) := by
        simp only [step, ha]
        rfl
      cases hr : d.ring.isEmpty with
      | false =>
        have ring : (⟨c, .ringEmpty⟩ : Demuxer C).step now d = (d, ⟨c, .top⟩, none) := by
          simp only [step, hr]
          rfl
        rw [drained, hv, ha, hr]
        exact ⟨3, by decide, (((top d).after rfl ring).after rfl audio).after rfl video⟩
      | true =>
        have ring : (⟨c, .ringEmpty⟩ : Demuxer C).step now d = (d, ⟨c, .markEnded⟩, none) := by
          simp only [step, hr]
          rfl
        have mark : (⟨c, .markEnded⟩ : Demuxer C).step now d = ({ d with ended := true }, ⟨c, .top⟩, none) := by
          simp only [step, Deck.markEnded, hpending]
          rfl
        rw [drained, hv, ha, hr]
        exact ⟨4, by decide, ((((top _).after rfl mark).after rfl ring).after rfl audio).after rfl video⟩

/-- **A pass of the demuxer**, if nobody asks for anything: it finds the queue over its limit, or makes one read, and
then puts the packet on its queue, or marks the end if nothing is left. -/
theorem turn_cases (now : Nat) (hstop : d.stop = false) (hpending : d.pendingSeek = none) (haudio : d.audio = none)
    (hread : (Container.read c).1 ≠ .died) :
    let after := turn now d (⟨c, .top⟩ : Demuxer C)
    (d.videoHasRoom = false ∧ after.1 = d ∧ after.2.1 = ⟨c, .top⟩) ∨
      d.videoHasRoom = true ∧ after.2.1 = ⟨(Container.read c).2, .top⟩ ∧
        ((∃ p, (Container.read c).1 = .ok (some p) ∧ after.1 = { d with ended := false }.route p) ∨
          (∀ p, (Container.read c).1 ≠ .ok (some p)) ∧
            after.1 = if d.isDrained then { d with ended := true } else d) := by
  intro after
  have top : (⟨c, .top⟩ : Demuxer C).step now d = (d, ⟨c, .poll⟩, none) := by
    simp only [step, hstop]
    rfl
  have poll : (⟨c, .poll⟩ : Demuxer C).step now d = (d, ⟨c, .audioRoom⟩, none) := by
    simp only [step, hpending]
    rfl
  have audio : (⟨c, .audioRoom⟩ : Demuxer C).step now d = (d, ⟨c, .videoRoom⟩, none) := by
    simp only [step, Deck.audioHasRoom, haudio]
    rfl
  have pass {k : Nat} {d' : Deck} {w' : Demuxer C} (hk : k ≤ passBound - 3)
      (h : Comes now d (⟨c, .videoRoom⟩ : Demuxer C) k d' w') : after.1 = d' ∧ after.2.1 = w' := by
    have hall := (h.after rfl audio).after rfl poll
    refine turn_eq (k := k + 2) ?_ (Nat.add_le_of_le_sub (by decide) (Nat.le_trans hk (by decide)))
    rw [top]
    exact hall
  cases hroom : d.videoHasRoom with
  | false =>
    have video : (⟨c, .videoRoom⟩ : Demuxer C).step now d = (d, ⟨c, .top⟩, none) := by
      simp only [step, hroom]
      rfl
    exact .inl ⟨rfl, pass (k := 1) (by decide) ((Comes.rest rfl).after rfl video)⟩
  | true =>
    have video : (⟨c, .videoRoom⟩ : Demuxer C).step now d = (d, ⟨c, .read⟩, none) := by
      simp only [step, hroom]
      rfl
    refine .inr ⟨rfl, ?_⟩
    rcases hr : Container.read c with ⟨r, c'⟩
    rw [hr] at hread
    have idle (hstep : (⟨c, .read⟩ : Demuxer C).step now d = (d, ⟨c', .videoIdle⟩, some (.read r))) :
        after.1 = (if d.isDrained then { d with ended := true } else d) ∧ after.2.1 = ⟨c', .top⟩ := by
      obtain ⟨k, hk, hcomes⟩ := comes_idle (c := c') now hpending
      exact pass (k := k + 2) (Nat.le_trans (Nat.add_le_add_right hk 2) (by decide))
        ((hcomes.after rfl hstep).after rfl video)
    rcases r with (_ | p) | e | _
    · have hstep : (⟨c, .read⟩ : Demuxer C).step now d = (d, ⟨c', .videoIdle⟩, some (.read (.ok none))) := by
        simp only [step, hr]
      obtain ⟨hdeck, hworker⟩ := idle hstep
      exact ⟨hworker, .inr ⟨by simp, hdeck⟩⟩
    · have hstep : (⟨c, .read⟩ : Demuxer C).step now d = (d, ⟨c', .arrived p⟩, some (.read (.ok (some p)))) := by
        simp only [step, hr]
      have arrived : (⟨c', .arrived p⟩ : Demuxer C).step now d =
          ({ d with ended := false }, ⟨c', .route p⟩, none) := rfl
      have route : (⟨c', .route p⟩ : Demuxer C).step now { d with ended := false } =
          ({ d with ended := false }.route p, ⟨c', .top⟩, none) := rfl
      obtain ⟨hdeck, hworker⟩ := pass (k := 4) (by decide)
        (((((Comes.rest rfl).after rfl route).after rfl arrived).after rfl hstep).after rfl video)
      exact ⟨hworker, .inl ⟨p, rfl, hdeck⟩⟩
    · have hstep : (⟨c, .read⟩ : Demuxer C).step now d = (d, ⟨c', .videoIdle⟩, some (.read (.error e))) := by
        simp only [step, hr]
      obtain ⟨hdeck, hworker⟩ := idle hstep
      exact ⟨hworker, .inr ⟨by simp, hdeck⟩⟩
    · exact absurd rfl hread

end Demuxer

/-! ## The decode worker until it waits -/

theorem PacketQueue.busy_take_nil {q : PacketQueue} (h : q.items = []) : (q.take false).2.busy = false := by
  have hp : q.queued.pop? = none := Fifo.pop?_eq_none.2 h
  simp [take, hp]

theorem PictureRing.commit_size (r : PictureRing) (pts : Float) (image : Image) :
    (r.commit pts image).1.capacity = r.capacity ∧
      ((r.commit pts image).1.size = r.size ∨ (r.commit pts image).1.size = r.size + 1) := by
  unfold commit
  split
  · exact ⟨rfl, .inl rfl⟩
  · exact ⟨by simp [capacity], .inr rfl⟩

namespace Decoder

variable [VideoCodec K]

/-- A worker that is in its loop and can be given so many frames by its codec; `rest` is what will be queued behind what
is queued now. -/
structure Going (d : Deck) (w : Decoder K) (rest : List QueueItem) (n : Nat) : Prop where
  stop : d.stop = false
  flushing : d.videoQueue.flushing = false
  counted : d.videoQueue.Counted
  capacity : 0 < d.ring.capacity
  inLoop : w.ending? = none
  yields : w.Yields (d.videoQueue.items ++ rest) n

def near (d : Deck) (w : Decoder K) : Nat := d.ring.size + w.point.inHand

/-- What the way from a place to the next item is worth; fewer than six, and with an item before it fewer than four. -/
def placeEffort (busy : Bool) : DecodePoint → Nat
  | .take => if busy then 1 else 0
  | .receive | .resetRing _ => 2
  | .send _ | .flushCodec _ | .commit _ => 3
  | .convert _ => 4
  | .place _ => 5
  | .leaving _ | .gone _ => 0

def effort (d : Deck) (w : Decoder K) (n : Nat) : Nat :=
  4 * n + 4 * d.videoQueue.items.length + placeEffort d.videoQueue.busy w.point

/-- What can become of the pictures that are near and the frames that are to come: there are fewer of them, or as many,
and no fewer are near. -/
def Passes (near n near' n' : Nat) : Prop := near' + n' < near + n ∨ near' + n' = near + n ∧ near ≤ near'

/-- The worker goes on, and has come nearer to where it waits. -/
def GoesOn (d : Deck) (w : Decoder K) (rest : List QueueItem) (n : Nat) (d' : Deck) (w' : Decoder K) : Prop :=
  ∃ n', Going d' w' rest n' ∧ effort d' w' n' < effort d w n ∧ Passes (near d w) n (near d' w') n'

variable {d : Deck} {w w' : Decoder K} {rest : List QueueItem} {n : Nat}

omit [VideoCodec K] in
theorem passes_of_inHand {d d' : Deck} {w w' : Decoder K} (hring : d'.ring = d.ring)
    (h : w'.point.inHand = w.point.inHand) : Passes (near d w) n (near d' w') n := by
  unfold near
  rw [h, hring]
  exact .inr ⟨rfl, Nat.le_refl _⟩

theorem Going.goto (h : Going d w rest n) (n' : Nat) (hloop : w'.ending? = none)
    (hy : w'.Yields (d.videoQueue.items ++ rest) n') (he : effort d w' n' < effort d w n)
    (hp : Passes (near d w) n (near d w') n') : GoesOn d w rest n d w' :=
  ⟨n', ⟨h.stop, h.flushing, h.counted, h.capacity, hloop, hy⟩, he, hp⟩

theorem Going.take (h : Going d w rest n) (hw : w.isWaiting d = false) (hp : w.point = .take) :
    GoesOn d w rest n (w.step d).1 (w.step d).2.1 := by
  have hy := h.yields
  have hcount := PacketQueue.counted_take h.counted false
  have hflush := d.videoQueue.flushing_take false
  rw [h.flushing] at hflush
  simp only [Yields, hp] at hy
  cases hi : d.videoQueue.items with
  | nil =>
    obtain ⟨htaken, hitems⟩ := PacketQueue.take_of_nil hi
    rw [h.flushing] at htaken
    have hbusy : d.videoQueue.busy = true := by
      have he : d.videoQueue.isEmpty = true := d.videoQueue.isEmpty_iff.2 hi
      simpa [isWaiting, hp, PacketQueue.blocks, h.stop, he, h.flushing] using hw
    have hstep : w.step d = ({ d with videoQueue := (d.videoQueue.take false).2 }, w, none) := by
      simp only [Decoder.step, hp, h.stop, htaken]
      rfl
    rw [hstep]
    refine ⟨n, ⟨h.stop, hflush, hcount, h.capacity, h.inLoop, ?_⟩, ?_, .inr ⟨rfl, Nat.le_refl _⟩⟩
    · simp only [Yields, hp, hitems]
      rw [hi] at hy
      exact hy
    · simp [effort, placeEffort, hp, hi, hitems, hbusy, PacketQueue.busy_take_nil hi]
  | cons i items =>
    obtain ⟨htaken, hitems⟩ := PacketQueue.take_of_cons hi
    rw [hi] at hy
    have goes {q : DecodePoint} (hs : w.step d =
          ({ d with videoQueue := (d.videoQueue.take false).2 }, { w with point := q }, none))
        (hq : q.inHand = 0 ∧ ∀ busy, placeEffort busy q = 3) (hl : ({ w with point := q } : Decoder K).ending? = none)
        (hy : ({ w with point := q } : Decoder K).Yields (items ++ rest) n) :
        GoesOn d w rest n (w.step d).1 (w.step d).2.1 := by
      rw [hs]
      refine ⟨n, ⟨h.stop, hflush, hcount, h.capacity, hl, ?_⟩, ?_, passes_of_inHand rfl ?_⟩
      · rw [hitems]
        exact hy
      · simp only [effort, hp, hi, hitems, List.length_cons, hq.2]
        omega
      · rw [hp]
        exact hq.1
    cases i with
    | packet p =>
      refine goes (q := .send p) ?_ ⟨rfl, fun _ => rfl⟩ rfl hy
      simp only [Decoder.step, hp, h.stop, htaken]
    | marker start =>
      refine goes (q := .flushCodec start) ?_ ⟨rfl, fun _ => rfl⟩ rfl hy
      simp only [Decoder.step, hp, h.stop, htaken]

theorem Going.receive (h : Going d w rest n) (hp : w.point = .receive) :
    GoesOn d w rest n (w.step d).1 (w.step d).2.1 := by
  have hy := h.yields
  simp only [Yields, hp] at hy
  cases hy with
  | @done _ k' _ _ hr hnext =>
    have hstep : w.step d = (d, { w with codec := k', point := .take }, none) := by
      simp only [Decoder.step, hp, hr]
    rw [hstep]
    refine h.goto n rfl hnext ?_ (passes_of_inHand rfl (by rw [hp]; rfl))
    simp only [effort, placeEffort, hp]
    split <;> omega
  | @frame _ k' f _ m hr skipped hc converted =>
    have hstep : w.step d = (d, ({ w with codec := k' } : Decoder K).advance f, none) := by
      simp only [Decoder.step, hp, hr]
    rw [hstep]
    obtain ⟨hcodec, hpoint⟩ := Decoder.advance_cases { w with codec := k' } f
    generalize ({ w with codec := k' } : Decoder K).advance f = w' at hcodec hpoint
    have hcodec : w'.codec = k' := hcodec
    rcases hpoint with hpoint | ⟨pts, hpoint⟩
    · refine h.goto m (by simp [ending?, hpoint]) ?_ ?_ (.inl ?_)
      · simp only [Yields, hpoint, hcodec]
        exact skipped
      · simp only [effort, placeEffort, hp, hpoint]
        omega
      · simp only [near, hp, hpoint, DecodePoint.inHand]
        omega
    · refine h.goto m (by simp [ending?, hpoint]) ?_ ?_ (.inr ⟨?_, ?_⟩)
      · simp only [Yields, hpoint, hcodec]
        exact fun buffer => ⟨hc buffer, converted buffer⟩
      · simp only [effort, placeEffort, hp, hpoint]
        omega
      · simp only [near, hp, hpoint, DecodePoint.inHand]
        omega
      · simp only [near, hp, hpoint, DecodePoint.inHand]
        omega

/-- **A worker that need not wait goes on.** -/
theorem Going.step (h : Going d w rest n) (hw : w.isWaiting d = false) :
    GoesOn d w rest n (w.step d).1 (w.step d).2.1 := by
  have hy := h.yields
  cases hp : w.point with
  | take => exact h.take hw hp
  | receive => exact h.receive hp
  | flushCodec start =>
    simp only [Yields, hp] at hy
    cases hy with
    | @flush _ k' _ _ _ hf hnext =>
      have hstep : w.step d = (d, { w with codec := k', point := .resetRing start }, none) := by
        simp only [Decoder.step, hp, hf]
      rw [hstep]
      refine h.goto n rfl hnext ?_ (passes_of_inHand rfl (by rw [hp]; rfl))
      simp only [effort, placeEffort, hp]
      omega
  | resetRing start =>
    simp only [Yields, hp] at hy
    simp only [Decoder.step, hp]
    refine ⟨n, ⟨h.stop, h.flushing, h.counted, h.capacity, rfl, hy⟩, ?_, ?_⟩
    · simp only [effort, placeEffort, hp]
      split <;> omega
    · simp only [Passes, near, hp, DecodePoint.inHand, PictureRing.reset, PictureRing.empty]
      omega
  | send p =>
    simp only [Yields, hp] at hy
    cases hy with
    | @send _ k' _ _ _ hs hnext =>
      have hstep : w.step d = (d, { w with codec := k', point := .receive }, none) := by
        simp only [Decoder.step, hp, hs]
      rw [hstep]
      refine h.goto n rfl hnext ?_ (passes_of_inHand rfl (by rw [hp]; rfl))
      simp only [effort, placeEffort, hp]
      omega
  | place pts =>
    -- the ring is not full, for then the worker would be waiting
    have hfree : d.ring.slotFor d.stop = .free := by
      simp only [isWaiting, hp, decide_eq_false_iff_not, PictureRing.slotFor, h.stop, Bool.false_eq_true,
        if_false] at hw ⊢
      split at hw
      · exact absurd rfl hw
      · next hc => rw [if_neg hc]
    have hstep : w.step d = (d, { w with point := .convert pts }, none) := by
      simp only [Decoder.step, hp, hfree]
    rw [hstep]
    simp only [Yields, hp] at hy
    refine h.goto n rfl hy ?_ (passes_of_inHand rfl (by rw [hp]; rfl))
    simp only [effort, placeEffort, hp]
    omega
  | convert pts =>
    simp only [Yields, hp] at hy
    obtain ⟨hc, hnext⟩ := hy w.spare
    rcases hconvert : VideoCodec.convert w.codec w.spare with ⟨r, image, k'⟩
    rw [hconvert] at hc hnext
    have hc : r = .ok () := hc
    subst hc
    have hstep : w.step d = (d, { w with codec := k', spare := image, point := .commit pts }, none) := by
      simp only [Decoder.step, hp, hconvert]
    rw [hstep]
    refine h.goto n rfl hnext ?_ (passes_of_inHand rfl (by rw [hp]; rfl))
    simp only [effort, placeEffort, hp]
    omega
  | commit pts =>
    simp only [Yields, hp] at hy
    simp only [Decoder.step, hp]
    -- the frame that was in the worker's hands is a picture now, or a ring that is shut has dropped it
    obtain ⟨hcapacity, hsize⟩ := d.ring.commit_size pts w.spare
    refine ⟨n, ⟨h.stop, h.flushing, h.counted, hcapacity ▸ h.capacity, rfl, hy⟩, ?_, ?_⟩
    · simp only [effort, placeEffort, hp]
      omega
    · simp only [Passes, near, hp, DecodePoint.inHand]
      omega
  | leaving how | gone how =>
    have hloop := h.inLoop
    simp only [ending?, hp] at hloop
    cases hloop

omit [VideoCodec K] in
theorem Passes.trans {near near' near'' n n' n'' : Nat} (h : Passes near n near' n') (h' : Passes near' n' near'' n'') :
    Passes near n near'' n'' := by
  unfold Passes at *
  omega

theorem Going.deck_step (h : Going d w rest n) (hw : w.isWaiting d = false) :
    (w.step d).1 = { d with videoQueue := (w.step d).1.videoQueue, ring := (w.step d).1.ring } := by
  obtain ⟨n', hgoing, -⟩ := h.step hw
  have heq := w.step_eq d
  rw [hgoing.stop, ← h.stop] at heq
  exact heq

/-- **A worker in its loop comes to a place where it waits.** -/
theorem Going.decodes (h : Going d w rest n) :
    ∃ d' w' n', Decodes d w d' w' ∧ w'.isWaiting d' = true ∧ Going d' w' rest n' ∧
      Passes (near d w) n (near d' w') n' ∧ d' = { d with videoQueue := d'.videoQueue, ring := d'.ring } := by
  induction he : effort d w n using Nat.strongRecOn generalizing d w n with
  | ind e less =>
    cases hw : w.isWaiting d with
    | true => exact ⟨d, w, n, .wait hw, hw, h, .inr ⟨rfl, Nat.le_refl _⟩, rfl⟩
    | false =>
      obtain ⟨n', hgoing, hless, hpasses⟩ := h.step hw
      obtain ⟨d', w', n'', hdecodes, hwaits, hgoing', hpasses', hdeck⟩ := less _ (he ▸ hless) hgoing rfl
      have hone := h.deck_step hw
      rw [hone] at hdeck
      exact ⟨d', w', n'', .step hw hdecodes, hwaits, hgoing', hpasses.trans hpasses', hdeck⟩

omit [VideoCodec K] in
/-- Where a worker waits: it has come for an item and found none, or for a slot and found the ring full. -/
theorem waiting_cases (hstop : d.stop = false) (h : w.isWaiting d = true) :
    (w.point = .take ∧ d.videoQueue.items = [] ∧ d.videoQueue.busy = false) ∨
      ∃ pts, w.point = .place pts ∧ d.ring.capacity ≤ d.ring.size := by
  cases hp : w.point with
  | take =>
    simp only [isWaiting, hp, PacketQueue.blocks, Bool.and_eq_true, Bool.not_eq_true'] at h
    exact .inl ⟨rfl, d.videoQueue.isEmpty_iff.1 h.1.1.2, h.2⟩
  | place pts =>
    simp only [isWaiting, hp, decide_eq_true_eq, PictureRing.slotFor, hstop, Bool.false_eq_true, if_false] at h
    split at h
    · next hc =>
      simp only [Bool.and_eq_true, PictureRing.isFull, decide_eq_true_eq] at hc
      exact .inr ⟨pts, rfl, hc.1⟩
    · cases h
  | _ =>
    simp only [isWaiting, hp] at h
    cases h

theorem Going.waiting (h : Going d w rest n) (hw : w.isWaiting d = true) :
    ((w.point = .take ∧ d.videoQueue.items = [] ∧ d.videoQueue.busy = false) ∧ w.point.inHand = 0) ∨
      w.point.inHand = 1 ∧ 0 < d.ring.size := by
  rcases waiting_cases h.stop hw with htake | ⟨pts, hp, hfull⟩
  · exact .inl ⟨htake, by rw [htake.1]; rfl⟩
  · exact .inr ⟨by rw [hp]; rfl, Nat.lt_of_lt_of_le h.capacity hfull⟩

theorem Decodes.unique {d d₁ d₂ : Deck} {w w₁ w₂ : Decoder K} (h₁ : Decodes d w d₁ w₁) (h₂ : Decodes d w d₂ w₂) :
    d₁ = d₂ ∧ w₁ = w₂ := by
  induction h₁ with
  | wait hw =>
    cases h₂ with
    | wait _ => exact ⟨rfl, rfl⟩
    | step hw' _ =>
      rw [hw] at hw'
      cases hw'
  | step hw _ ih =>
    cases h₂ with
    | wait hw' =>
      rw [hw] at hw'
      cases hw'
    | step _ hrest => exact ih hrest

end Decoder

namespace Session

variable [Container C K] [VideoCodec K] [AudioDecoder D] {s t u : Session C K D} {now : Nat} {instants : Nat → Nat}

theorem Round.unique (h : s.Round now t) (h' : s.Round now u) : t = u := by
  cases h with
  | mk hw hd =>
    cases h' with
    | mk hw' hd' =>
      rw [hw] at hw'
      cases hw'
      obtain ⟨rfl, rfl⟩ := hd.unique hd'
      rfl

theorem Rounds.unique {n : Nat} (h : s.Rounds instants n t) (h' : s.Rounds instants n u) : t = u := by
  induction h with
  | none instants s =>
    cases h'
    rfl
  | next hr _ ih =>
    cases h' with
    | next hr' h' =>
      rw [hr'.unique hr] at h'
      exact ih h'

theorem decodes_reaches {d d' : Deck} {w w' : Decoder K} (h : w.Decodes d d' w') (s : Session C K D) :
    (s.withDecoder d w).Reaches (s.withDecoder d' w') := by
  induction h with
  | wait _ => exact .refl _
  | step _ _ ih => exact (s.decode_reaches _ _).trans ih

/-- **A round is a run.** -/
theorem Round.reaches (h : s.Round now t) : s.Reaches t := by
  cases h with
  | @mk w w' d hw hd =>
    have passes : s.Reaches (s.passed now) := s.turn_reaches now s.deck s.demuxer
    have decodes := decodes_reaches hd (s.passed now)
    have same : (s.passed now).withDecoder (s.passed now).deck w = s.passed now := by
      simp only [withDecoder, passed, withDemuxer, hw]
    rw [same] at decodes
    exact (passes.trans decodes).trans (.move _ now _)

theorem Rounds.reaches {n : Nat} (h : s.Rounds instants n t) : s.Reaches t := by
  induction h with
  | none instants s => exact .refl s
  | next hr _ ih => exact hr.reaches.trans ih

end Session

end Playhead
