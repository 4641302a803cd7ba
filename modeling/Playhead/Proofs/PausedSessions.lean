import Playhead.Proofs.HostCalls
import Playhead.Proofs.OneProducer
/-!
# PausedSessions — what is seen of a session while it is paused

A pause stops the driver only.  The demuxer goes on reading, the decode worker goes on filling the ring, and seeks are
done.  What is seen of a paused session, the position, the pictures that wait and the reading of the clock, changes
by four actions of the two workers and by nothing else (`Session.Halted.move`), so it is what these make of what was
seen at the pause (`Session.Halted.run`).  If no seek is on its way, only pictures are appended (`Session.Unsought`).
-/
namespace Playhead

/-- What is seen of a paused session. -/
structure Sight where
  position : Float
  waiting : List Picture
  /-- Where the clock stands, in nanoseconds. -/
  clock : Nat

/-- What the workers do to a paused session that can be seen. -/
inductive Change
  /-- The decode worker comes to a marker of this time. -/
  | reset (secs : Float)
  /-- A seek drops the pictures that wait. -/
  | cleared
  /-- A seek to this target sets the clock. -/
  | clockSet (target : Float)
  | appended (p : Picture)

namespace Change

def reset? : Change → Option Float
  | .reset secs => some secs
  | _ => none

def clockSet? : Change → Option Float
  | .clockSet target => some target
  | _ => none

def appended? : Change → Option Picture
  | .appended p => some p
  | _ => none

def empties : Change → Bool
  | .reset _ | .cleared => true
  | _ => false

/-- What can be seen while no seek is done. -/
def Appends (c : Change) : Prop := ∃ p, c = .appended p

end Change

namespace Sight

/-- A position of the clock in nanoseconds: no clock stands before zero. -/
def clockAt (target : Float) : Nat := (seekMicros target).toInt.toNat * 1000

def after (v : Sight) : Change → Sight
  | .reset secs => { v with position := secs, waiting := [] }
  | .cleared => { v with waiting := [] }
  | .clockSet target => { v with clock := clockAt target }
  | .appended p => { v with waiting := v.waiting ++ [p] }

theorem foldl_last {σ α β : Type} {f : σ → α → σ} (view : σ → β) {pick : α → Option β}
    (h : ∀ s a, view (f s a) = (pick a).getD (view s)) (as : List α) (s : σ) :
    view (as.foldl f s) = (as.filterMap pick).getLast?.getD (view s) := by
  induction as generalizing s with
  | nil => rfl
  | cons a as ih =>
    rw [List.foldl_cons, ih, h]
    cases hp : pick a with
    | none => rw [List.filterMap_cons_none hp, Option.getD_none]
    | some b =>
      rw [List.filterMap_cons_some hp, List.getLast?_cons]
      rfl

theorem position_after (v : Sight) (cs : List Change) :
    (cs.foldl after v).position = (cs.filterMap Change.reset?).getLast?.getD v.position :=
  foldl_last Sight.position (fun v c => by cases c <;> rfl) cs v

theorem clock_after (v : Sight) (cs : List Change) :
    (cs.foldl after v).clock = ((cs.filterMap Change.clockSet?).getLast?.map clockAt).getD v.clock := by
  have last : (cs.foldl after v).clock = (cs.filterMap (fun c => c.clockSet?.map clockAt)).getLast?.getD v.clock :=
    foldl_last Sight.clock (fun v c => by cases c <;> rfl) cs v
  rw [last, ← List.getLast?_map, List.map_filterMap]

/-- As long as nothing empties the ring, pictures are appended to those that wait. -/
theorem waiting_after (v : Sight) {cs : List Change} (h : ∀ c ∈ cs, c.empties = false) :
    (cs.foldl after v).waiting = v.waiting ++ cs.filterMap Change.appended? := by
  induction cs generalizing v with
  | nil => exact (List.append_nil _).symm
  | cons c cs ih =>
    rw [List.foldl_cons, ih _ (fun c hc => h c (List.mem_cons_of_mem _ hc))]
    cases c with
    | reset secs => cases h _ List.mem_cons_self
    | cleared => cases h _ List.mem_cons_self
    | clockSet target => rfl
    | appended p =>
      change (v.waiting ++ [p]) ++ cs.filterMap Change.appended? = v.waiting ++ p :: cs.filterMap Change.appended?
      rw [List.append_assoc, List.singleton_append]

theorem waiting_after_emptied (v : Sight) (front : List Change) {c : Change} (hc : c.empties = true)
    {behind : List Change} (h : ∀ c ∈ behind, c.empties = false) :
    ((front ++ c :: behind).foldl after v).waiting = behind.filterMap Change.appended? := by
  rw [List.foldl_append, List.foldl_cons, waiting_after _ h]
  cases c with
  | reset secs => rfl
  | cleared => rfl
  | clockSet target => cases hc
  | appended p => cases hc

theorem after_appends (v : Sight) {cs : List Change} (h : ∀ c ∈ cs, c.Appends) :
    cs.foldl after v = { v with waiting := v.waiting ++ cs.filterMap Change.appended? } := by
  induction cs generalizing v with
  | nil => exact congrArg (fun waiting => { v with waiting }) (List.append_nil _).symm
  | cons c cs ih =>
    obtain ⟨p, rfl⟩ := h c List.mem_cons_self
    rw [List.foldl_cons, ih _ (fun c hc => h c (List.mem_cons_of_mem _ hc))]
    exact congrArg (fun waiting => { v with waiting }) (List.append_assoc v.waiting [p] _)

end Sight

variable {C K D : Type}

/-! ## What the workers do to what is seen -/

theorem PictureRing.seen_commit {r : PictureRing} (hl : r.Laid) (pts : Float) (image : Image) :
    (r.commit pts image).1.lastPts = r.lastPts ∧ (r.commit pts image).1.capacity = r.capacity ∧
      (r.commit pts image).1.pictures = r.pictures ++ if r.accepts then [⟨pts, image⟩] else [] := by
  refine ⟨?_, ?_, ?_⟩
  · unfold commit
    split <;> rfl
  · unfold commit
    split
    · rfl
    · exact Array.size_setIfInBounds
  · rw [pictures_commit hl, accepts]
    cases r.holding || r.isFull with
    | true => exact (List.append_nil _).symm
    | false => rfl

def Demuxer.change (w : Demuxer C) : Option Change :=
  match w.point with
  | .apply _ _ .holdRing | .apply _ _ .clearRing => some .cleared
  | .apply target _ .setClock => some (.clockSet target)
  | _ => none

def Decoder.change (d : Deck) (w : Decoder K) : Option Change :=
  match w.point with
  | .resetRing m => some (.reset (w.stream.timeBase.seconds m))
  | .commit pts => if d.ring.accepts then some (.appended ⟨pts, w.spare⟩) else none
  | _ => none

theorem Demuxer.seen_step [Container C K] (now : Nat) (d : Deck) (w : Demuxer C) :
    (∃ hold, w.change = some .cleared ∧ (w.step now d).1.ring = d.ring.clear hold ∧
        (w.step now d).1.clock = d.clock) ∨
      (∃ target us, w.point = .apply target us .setClock ∧ (w.step now d).1.ring = d.ring ∧
        (w.step now d).1.clock = d.clock.set now us.toInt.toNat) ∨
      (w.change = none ∧ (w.step now d).1.ring = d.ring ∧ (w.step now d).1.clock = d.clock) := by
  cases hp : w.point with
  | apply target us stage =>
    simp only [step, change, hp]
    cases stage with
    | holdRing => exact .inl ⟨true, rfl, rfl, rfl⟩
    | clearRing => exact .inl ⟨false, rfl, rfl, rfl⟩
    | setClock => exact .inr (.inl ⟨target, us, rfl, rfl, rfl⟩)
    | markAudio =>
      simp only [SeekStage.act]
      cases d.audio <;> exact .inr (.inr ⟨trivial, rfl, rfl⟩)
    | markVideo =>
      simp only [SeekStage.act]
      cases d.video <;> exact .inr (.inr ⟨trivial, rfl, rfl⟩)
    | clearAudio | clearVideo | unsetEnded => exact .inr (.inr ⟨rfl, rfl, rfl⟩)
  | seek target | read =>
    simp only [step, change, hp]
    split <;> exact .inr (.inr ⟨trivial, rfl, rfl⟩)
  | retire target =>
    simp only [step, change, hp]
    rw [d.completeSeek_eq]
    exact .inr (.inr ⟨trivial, rfl, rfl⟩)
  | route p =>
    simp only [step, change, hp]
    rw [d.route_eq]
    exact .inr (.inr ⟨trivial, rfl, rfl⟩)
  | markEnded =>
    simp only [step, change, hp]
    rw [d.markEnded_eq]
    exact .inr (.inr ⟨trivial, rfl, rfl⟩)
  | _ =>
    simp only [step, change, hp]
    exact .inr (.inr ⟨trivial, trivial, trivial⟩)

theorem Decoder.seen_step [VideoCodec K] (d : Deck) (w : Decoder K) :
    (∃ m, w.point = .resetRing m ∧ (w.step d).1.ring = d.ring.reset (w.stream.timeBase.seconds m)) ∨
      (∃ pts, w.point = .commit pts ∧ (w.step d).1.ring = (d.ring.commit pts w.spare).1) ∨
      (w.change d = none ∧ (w.step d).1.ring = d.ring) := by
  cases hp : w.point with
  | resetRing m => exact .inl ⟨m, rfl, by simp only [step, hp]⟩
  | commit pts => exact .inr (.inl ⟨pts, rfl, by simp only [step, hp]⟩)
  | take | flushCodec m | send p | receive | place pts | convert pts =>
    simp only [step, change, hp]
    refine .inr (.inr ⟨trivial, ?_⟩)
    split <;> rfl
  | leaving how | gone how =>
    simp only [step, change, hp]
    exact .inr (.inr ⟨trivial, trivial⟩)

/-- A seek that is being applied goes to its target in microseconds. -/
def DemuxPoint.Aimed (p : DemuxPoint) : Prop := ∀ target us stage, p = .apply target us stage → us = seekMicros target

theorem Demuxer.aimed_step [Container C K] {w : Demuxer C} (h : w.point.Aimed) (now : Nat) (d : Deck) :
    (w.step now d).2.1.point.Aimed := by
  intro target us stage hq
  rcases Demuxer.apply_step hq with ⟨previous, hp, -⟩ | ⟨-, hus, -⟩
  · exact h target us previous hp
  · exact hus

def Move.isWork : Move → Bool
  | .demux | .decode | .takeAudio => true
  | _ => false

def Move.resumes : Move → Bool
  | .setPaused false => true
  | _ => false

def Move.seeks : Move → Bool
  | .requestSeek _ => true
  | _ => false

namespace Session

def sight (s : Session C K D) : Sight := ⟨s.deck.ring.lastPts, s.deck.ring.pictures, s.deck.clock.heldAt⟩

/-- A session whose ring has so many slots and is in order, and whose demuxer goes where it was told to. -/
structure Watched (capacity : Nat) (s : Session C K D) : Prop where
  laid : s.deck.ring.Laid
  slots : s.deck.ring.capacity = capacity
  aimed : s.demuxer.point.Aimed

structure Halted (capacity : Nat) (s : Session C K D) : Prop extends s.Watched capacity where
  paused : s.deck.paused = true
  clock : s.deck.clock.paused = true

/-- What a move changes of what is seen of a paused session. -/
def change (s : Session C K D) : Move → Option Change
  | .demux => s.demuxer.change
  | .decode => s.decoder.bind (·.change s.deck)
  | _ => none

variable [Container C K] [VideoCodec K] [AudioDecoder D]

def changes (s : Session C K D) : List (Nat × Move) → List Change
  | [] => []
  | m :: moves => (s.change m.2).toList ++ (s.move m.1 m.2).changes moves

variable {s : Session C K D} {capacity : Nat}

theorem Watched.demux (h : s.Watched capacity) (now : Nat) :
    (s.move now .demux).Watched capacity ∧
      (s.move now .demux).sight = (s.demuxer.change.map s.sight.after).getD s.sight := by
  change Watched capacity (s.demux now).1 ∧ (s.demux now).1.sight = _
  have aimed := s.demuxer.aimed_step h.aimed now s.deck
  have ring : (s.demux now).1.deck.ring = (s.demuxer.step now s.deck).1.ring := rfl
  have sight : (s.demux now).1.sight = ⟨(s.demuxer.step now s.deck).1.ring.lastPts,
    (s.demuxer.step now s.deck).1.ring.pictures, (s.demuxer.step now s.deck).1.clock.heldAt⟩ := rfl
  rcases s.demuxer.seen_step now s.deck with ⟨hold, hc, hr, hk⟩ | ⟨target, us, hp, hr, hk⟩ | ⟨hc, hr, hk⟩
  · rw [hr] at ring
    rw [sight, hr, hk, hc]
    exact ⟨⟨ring ▸ h.laid.clear hold, ring ▸ h.slots, aimed⟩, rfl⟩
  · rw [hr] at ring
    rw [sight, hr, hk, h.aimed _ _ _ hp, Demuxer.change, hp]
    exact ⟨⟨ring ▸ h.laid, ring ▸ h.slots, aimed⟩, rfl⟩
  · rw [hr] at ring
    rw [sight, hr, hk, hc]
    exact ⟨⟨ring ▸ h.laid, ring ▸ h.slots, aimed⟩, rfl⟩

theorem Watched.decode (h : s.Watched capacity) (now : Nat) :
    (s.move now .decode).Watched capacity ∧
      (s.move now .decode).sight = ((s.change .decode).map s.sight.after).getD s.sight := by
  cases hd : s.decoder with
  | none =>
    have same : s.move now .decode = s := by simp only [move, Session.decode, hd]
    rw [same, change, hd]
    exact ⟨h, rfl⟩
  | some w =>
    have hmove : s.move now .decode = { s with deck := (w.step s.deck).1, decoder := some (w.step s.deck).2.1 } := by
      simp only [move, Session.decode, hd]
    have hchange : s.change .decode = w.change s.deck := by rw [change, hd, Option.bind_some]
    rw [hmove, hchange]
    have clock : (w.step s.deck).1.clock = s.deck.clock := by rw [w.step_eq]
    have watched (hl : (w.step s.deck).1.ring.Laid) (hn : (w.step s.deck).1.ring.capacity = s.deck.ring.capacity) :
        Watched capacity { s with deck := (w.step s.deck).1, decoder := some (w.step s.deck).2.1 } :=
      ⟨hl, hn.trans h.slots, h.aimed⟩
    rw [sight, clock]
    rcases w.seen_step s.deck with ⟨m, hp, hr⟩ | ⟨pts, hp, hr⟩ | ⟨hc, hr⟩
    · rw [hr] at watched ⊢
      rw [Decoder.change, hp]
      exact ⟨watched (h.laid.reset _) rfl, rfl⟩
    · obtain ⟨last, slots, pictures⟩ := PictureRing.seen_commit h.laid pts w.spare
      rw [hr] at watched ⊢
      rw [last, pictures, Decoder.change, hp]
      refine ⟨watched (h.laid.commit pts w.spare) slots, ?_⟩
      cases s.deck.ring.accepts with
      | true => rfl
      | false => exact congrArg (Sight.mk _ · _) (List.append_nil _)
    · rw [hr] at watched ⊢
      rw [hc]
      exact ⟨watched h.laid rfl, rfl⟩

/-- **An action of a worker changes what is seen as `change` says**, whether the session is paused or not. -/
theorem Watched.work (h : s.Watched capacity) (now : Nat) {m : Move} (hm : m.isWork = true) :
    (s.move now m).Watched capacity ∧ (s.move now m).sight = ((s.change m).map s.sight.after).getD s.sight := by
  cases m with
  | demux => exact h.demux now
  | decode => exact h.decode now
  | takeAudio => exact ⟨⟨h.laid, h.slots, h.aimed⟩, rfl⟩
  | _ => cases hm

theorem paused_work (s : Session C K D) (now : Nat) {m : Move} (hm : m.isWork = true) :
    (s.move now m).deck.paused = s.deck.paused ∧ (s.move now m).deck.clock.paused = s.deck.clock.paused := by
  cases m with
  | demux =>
    refine ⟨?_, s.demuxer.paused_step now s.deck⟩
    change (s.demuxer.step now s.deck).1.paused = s.deck.paused
    rw [s.demuxer.step_eq]
  | decode =>
    simp only [move, Session.decode]
    cases s.decoder with
    | none => exact ⟨rfl, rfl⟩
    | some w =>
      change (w.step s.deck).1.paused = _ ∧ (w.step s.deck).1.clock.paused = _
      rw [w.step_eq]
      exact ⟨rfl, rfl⟩
  | takeAudio => exact ⟨rfl, rfl⟩
  | _ => cases hm

/-- **A move changes what is seen of a paused session as `change` says**, and leaves it paused unless it resumes it. -/
theorem Halted.move (h : s.Halted capacity) (now : Nat) {m : Move} (hm : m.resumes = false) :
    (s.move now m).Halted capacity ∧ (s.move now m).sight = ((s.change m).map s.sight.after).getD s.sight := by
  cases m with
  | demux =>
    obtain ⟨paused, clock⟩ := s.paused_work now (m := .demux) rfl
    exact ⟨⟨(h.demux now).1, paused.trans h.paused, clock.trans h.clock⟩, (h.demux now).2⟩
  | decode =>
    obtain ⟨paused, clock⟩ := s.paused_work now (m := .decode) rfl
    exact ⟨⟨(h.decode now).1, paused.trans h.paused, clock.trans h.clock⟩, (h.decode now).2⟩
  | refresh master =>
    have same : s.move now (.refresh master) = s := by simp only [Session.move, h.paused, if_true]
    rw [same]
    exact ⟨h, rfl⟩
  | setPaused on =>
    cases on with
    | false => cases hm
    | true =>
      have clock : s.deck.clock.setPaused now true = s.deck.clock := if_pos h.clock
      refine ⟨⟨⟨h.laid, h.slots, h.aimed⟩, rfl, s.deck.clock.paused_setPaused now true⟩, ?_⟩
      exact congrArg (fun c : Clock => (⟨s.deck.ring.lastPts, s.deck.ring.pictures, c.heldAt⟩ : Sight)) clock
  | takeAudio | requestSeek target | beginClose => exact ⟨⟨⟨h.laid, h.slots, h.aimed⟩, h.paused, h.clock⟩, rfl⟩

theorem sight_run {P : Session C K D → Prop} (able : Move → Bool)
    (step : ∀ s now m, P s → able m = true →
      P (s.move now m) ∧ (s.move now m).sight = ((s.change m).map s.sight.after).getD s.sight)
    (h : P s) {moves : List (Nat × Move)} (hm : ∀ m ∈ moves, able m.2 = true) :
    P (s.run moves) ∧ (s.run moves).sight = (s.changes moves).foldl Sight.after s.sight := by
  induction moves generalizing s with
  | nil => exact ⟨h, rfl⟩
  | cons m moves ih =>
    obtain ⟨h', hsight⟩ := step s m.1 m.2 h (hm m List.mem_cons_self)
    obtain ⟨h'', hsight'⟩ := ih h' (fun m' hm' => hm m' (List.mem_cons_of_mem m hm'))
    refine ⟨h'', ?_⟩
    rw [run_cons, hsight', hsight, changes, List.foldl_append]
    cases s.change m.2 <;> rfl

theorem Halted.run (h : s.Halted capacity) {moves : List (Nat × Move)} (hm : ∀ m ∈ moves, m.2.resumes = false) :
    (s.run moves).Halted capacity ∧ (s.run moves).sight = (s.changes moves).foldl Sight.after s.sight :=
  sight_run (fun m => !m.resumes) (fun _ now _ h hm => h.move now (by simpa using hm)) h
    (fun m hmem => by rw [hm m hmem]; rfl)

end Session

/-! ## Without a seek -/

def DecodePoint.atMarker : DecodePoint → Bool
  | .flushCodec _ | .resetRing _ => true
  | _ => false

theorem Decoder.atMarker_advance (w : Decoder K) (f : FrameInfo) : (w.advance f).point.atMarker = false := by
  rcases w.advance_cases f with ⟨-, h | ⟨pts, h⟩⟩ <;> rw [h] <;> rfl

theorem Demuxer.unsought_step [Container C K] (now : Nat) {d : Deck} {w : Demuxer C} (hd : d.pendingSeek = none)
    (hw : w.point.target? = none) (hq : ∀ i ∈ d.videoQueue.items, i.isMarker = false) :
    w.change = none ∧ (w.step now d).1.pendingSeek = none ∧ (w.step now d).2.1.point.target? = none ∧
      ∀ i ∈ (w.step now d).1.videoQueue.items, i.isMarker = false := by
  cases hp : w.point with
  | seek target | apply target us stage | retire target =>
    rw [hp] at hw
    cases hw
  | start =>
    simp only [step, change, hp, DemuxPoint.entry]
    refine ⟨trivial, hd, ?_, hq⟩
    split <;> rfl
  | poll =>
    simp only [step, change, hp, hd]
    exact ⟨trivial, trivial, rfl, hq⟩
  | route p =>
    simp only [step, change, hp]
    refine ⟨trivial, (d.pendingSeek_route p).trans hd, rfl, ?_⟩
    unfold Deck.route
    split
    · intro i hi
      rw [PacketQueue.items_put] at hi
      rcases List.mem_append.1 hi with hi | hi
      · exact hq i hi
      · rw [List.mem_singleton.1 hi]
        rfl
    · split <;> exact hq
  | markEnded =>
    simp only [step, change, hp]
    rw [d.markEnded_eq]
    exact ⟨trivial, hd, rfl, hq⟩
  | top | audioRoom | videoRoom | videoIdle | audioIdle | ringEmpty =>
    simp only [step, change, hp]
    refine ⟨trivial, hd, ?_, hq⟩
    split <;> rfl
  | read =>
    simp only [step, change, hp]
    split <;> exact ⟨trivial, hd, rfl, hq⟩
  | _ =>
    simp only [step, change, hp]
    exact ⟨trivial, hd, rfl, hq⟩

theorem PacketQueue.mem_of_take {q : PacketQueue} {stop : Bool} {i : QueueItem} (h : (q.take stop).1 = .item i) :
    i ∈ q.items := by
  rw [take_fst] at h
  split at h
  · cases h
  · cases hi : q.items with
    | nil =>
      rw [hi] at h
      change (if q.flushing then Taken.flushed else .nothing) = .item i at h
      split at h <;> cases h
    | cons j rest =>
      rw [hi] at h
      cases h
      exact List.mem_cons_self

theorem Decoder.unsought_step [VideoCodec K] {d : Deck} {w : Decoder K} (hw : w.point.atMarker = false)
    (hq : ∀ i ∈ d.videoQueue.items, i.isMarker = false) :
    (∀ c ∈ w.change d, c.Appends) ∧ (w.step d).2.1.point.atMarker = false ∧
      ∀ i ∈ (w.step d).1.videoQueue.items, i.isMarker = false := by
  cases hp : w.point with
  | flushCodec m | resetRing m =>
    rw [hp] at hw
    cases hw
  | take =>
    refine ⟨by simp [change, hp], ?_, ?_⟩
    · simp only [step, hp]
      split
      · rfl
      · next m ht => cases hq _ (PacketQueue.mem_of_take ht)
      · rfl
      · rfl
      · exact hw
    · rw [videoQueue_step_take hp, PacketQueue.items_take]
      split
      · exact hq
      · exact fun i hi => hq i (List.mem_of_mem_tail hi)
  | receive =>
    simp only [step, change, hp]
    refine ⟨by simp, ?_, ?_⟩
    · split
      · next f k hr => exact atMarker_advance _ f
      · rfl
      · rfl
      · rfl
    · split <;> exact hq
  | commit pts =>
    simp only [step, change, hp]
    refine ⟨fun c hc => ?_, rfl, hq⟩
    split at hc
    · cases hc
      exact ⟨_, rfl⟩
    · cases hc
  | send p | place pts | convert pts =>
    simp only [step, change, hp]
    refine ⟨by simp, ?_, ?_⟩
    · split <;> first | rfl | exact hw
    · split <;> exact hq
  | leaving how | gone how =>
    simp only [step, change, hp]
    exact ⟨by simp, rfl, hq⟩

namespace Session

/-- No seek is asked for, none is being done, and none is still to reach the decode worker. -/
structure Unsought (s : Session C K D) : Prop where
  pending : s.deck.pendingSeek = none
  target : s.demuxer.point.target? = none
  queued : ∀ i ∈ s.deck.videoQueue.items, i.isMarker = false
  worker : ∀ w ∈ s.decoder, w.point.atMarker = false

variable [Container C K] [VideoCodec K] [AudioDecoder D] {s : Session C K D}

theorem Unsought.move (h : s.Unsought) (now : Nat) {m : Move} (hm : m.seeks = false) :
    (s.move now m).Unsought ∧ ∀ c ∈ s.change m, c.Appends := by
  have none : ∀ c ∈ (Option.none : Option Change), c.Appends := fun c hc => by cases hc
  cases m with
  | demux =>
    obtain ⟨hc, hpending, htarget, hqueued⟩ := s.demuxer.unsought_step now h.pending h.target h.queued
    rw [change, hc]
    exact ⟨⟨hpending, htarget, hqueued, h.worker⟩, none⟩
  | decode =>
    cases hd : s.decoder with
    | none =>
      have same : s.move now .decode = s := by simp only [Session.move, Session.decode, hd]
      rw [same, change, hd]
      exact ⟨h, none⟩
    | some w =>
      have hmove : s.move now .decode =
          { s with deck := (w.step s.deck).1, decoder := some (w.step s.deck).2.1 } := by
        simp only [Session.move, Session.decode, hd]
      obtain ⟨hc, hworker, hqueued⟩ := w.unsought_step (h.worker w hd) h.queued
      rw [hmove, change, hd]
      refine ⟨⟨(w.pendingSeek_step s.deck).trans h.pending, h.target, hqueued, fun w' hw' => ?_⟩, hc⟩
      cases hw'
      exact hworker
  | refresh master =>
    refine ⟨?_, none⟩
    simp only [Session.move]
    split
    · exact h
    · exact ⟨h.pending, h.target, h.queued, h.worker⟩
  | requestSeek target => cases hm
  | takeAudio | setPaused on | beginClose => exact ⟨⟨h.pending, h.target, h.queued, h.worker⟩, none⟩

theorem Unsought.run (h : s.Unsought) {moves : List (Nat × Move)} (hm : ∀ m ∈ moves, m.2.seeks = false) :
    (s.run moves).Unsought ∧ ∀ c ∈ s.changes moves, c.Appends := by
  induction moves generalizing s with
  | nil => exact ⟨h, fun c hc => by cases hc⟩
  | cons m moves ih =>
    obtain ⟨unsought, hc⟩ := h.move m.1 (hm m List.mem_cons_self)
    obtain ⟨unsought', hc'⟩ := ih unsought (fun m' hm' => hm m' (List.mem_cons_of_mem m hm'))
    refine ⟨unsought', fun c hmem => ?_⟩
    rcases List.mem_append.1 hmem with hmem | hmem
    · exact hc c (Option.mem_toList.1 hmem)
    · exact hc' c hmem

theorem Unsought.clock_work (h : s.Unsought) (now : Nat) {m : Move} (hm : m.isWork = true) :
    (s.move now m).deck.clock = s.deck.clock := by
  cases m with
  | demux =>
    have still := (s.demuxer.unsought_step now h.pending h.target h.queued).1
    rcases s.demuxer.seen_step now s.deck with ⟨hold, hc, -⟩ | ⟨target, us, hp, -⟩ | ⟨-, -, hk⟩
    · rw [still] at hc
      cases hc
    · have about := h.target
      rw [hp] at about
      cases about
    · exact hk
  | decode =>
    simp only [Session.move, Session.decode]
    cases s.decoder with
    | none => rfl
    | some w =>
      change (w.step s.deck).1.clock = _
      rw [w.step_eq]
  | takeAudio => rfl
  | _ => cases hm

/-- **Without a seek the workers only append pictures**, and the clock goes on as it did. -/
theorem Unsought.work_run (h : s.Unsought) {capacity : Nat} (watched : s.Watched capacity)
    {moves : List (Nat × Move)} (hm : ∀ m ∈ moves, m.2.isWork = true) :
    let v := s.run moves
    v.Watched capacity ∧ v.deck.clock = s.deck.clock ∧ v.deck.paused = s.deck.paused ∧
      v.sight = { s.sight with waiting := s.sight.waiting ++ (s.changes moves).filterMap Change.appended? } := by
  have quiet : ∀ m ∈ moves, m.2.seeks = false := by
    intro m hmem
    have := hm m hmem
    cases hc : m.2 <;> rw [hc] at this <;> first | rfl | cases this
  obtain ⟨watched', sight⟩ := sight_run Move.isWork (fun _ now _ h hm => h.work now hm) watched hm
  have kept : (s.run moves).deck.clock = s.deck.clock ∧ (s.run moves).deck.paused = s.deck.paused := by
    clear watched watched' sight
    induction moves generalizing s with
    | nil => exact ⟨rfl, rfl⟩
    | cons m moves ih =>
      have work := hm m List.mem_cons_self
      obtain ⟨clock, paused⟩ := ih (h.move m.1 (quiet m List.mem_cons_self)).1
        (fun m' hm' => hm m' (List.mem_cons_of_mem m hm')) (fun m' hm' => quiet m' (List.mem_cons_of_mem m hm'))
      exact ⟨clock.trans (h.clock_work m.1 work), paused.trans (s.paused_work m.1 work).1⟩
  exact ⟨watched', kept.1, kept.2, sight.trans (s.sight.after_appends (h.run quiet).2)⟩

theorem aimed_run (s : Session C K D) (h : s.demuxer.point.Aimed) (moves : List (Nat × Move)) :
    (s.run moves).demuxer.point.Aimed := by
  refine run_keeps (P := fun s _ => s.demuxer.point.Aimed) (fun s _ now m hs => ?_) s [] h moves
  cases m with
  | demux => exact s.demuxer.aimed_step hs now s.deck
  | decode =>
    simp only [Session.move, Session.decode]
    cases s.decoder <;> exact hs
  | refresh master =>
    simp only [Session.move]
    split <;> exact hs
  | takeAudio | requestSeek target | setPaused on | beginClose => exact hs

theorem halted_of_setPaused (now : Nat) (config : Config) (container : C) (audio : Option (StreamInfo × D))
    (video : Option (StreamInfo × K)) (before : List (Nat × Move)) (t : Nat) :
    let s := ((Player.sessionOf now config container audio video : Session C K D).run before).move t (.setPaused true)
    s.Halted s.deck.ring.capacity := by
  intro s
  obtain ⟨_, _, sound⟩ := sound_run now config container audio video before
  have laid := sound.laid
  rw [ring_ringUse] at laid
  exact ⟨⟨laid, rfl, aimed_run _ (fun target us stage h => by cases h) before⟩, rfl, Clock.paused_setPaused _ t true⟩

omit [Container C K] [VideoCodec K] [AudioDecoder D] in
theorem Halted.position {capacity : Nat} (h : s.Halted capacity) (i : Nat) :
    s.deck.clock.position i = s.sight.clock := Clock.position_of_paused h.clock i

theorem Halted.resume {capacity : Nat} (h : s.Halted capacity) {i j : Nat} :
    (s.move i (.setPaused false)).deck.clock.position j = s.sight.clock + (j - i) := by
  change (s.deck.clock.setPaused i false).position j = s.deck.clock.heldAt + (j - i)
  simp [Clock.setPaused, Clock.position, h.clock]

/-- While no seek is on its way a resumed session goes on from what is seen of it. -/
theorem Halted.resumed {capacity : Nat} (h : s.Halted capacity) (still : s.Unsought) (i : Nat)
    {after : List (Nat × Move)} (work : ∀ m ∈ after, m.2.isWork = true) :
    let v := (s.move i (.setPaused false)).run after
    v.deck.ring.Laid ∧ v.deck.paused = false ∧ v.deck.ring.lastPts = s.deck.ring.lastPts ∧
      s.deck.ring.pictures <+: v.deck.ring.pictures ∧ ∀ j, v.deck.clock.position j = s.sight.clock + (j - i) := by
  have unsought := (still.move i (m := .setPaused false) rfl).1
  have watched : (s.move i (.setPaused false)).Watched capacity := ⟨h.laid, h.slots, h.aimed⟩
  obtain ⟨watched', clock, paused, sight⟩ := unsought.work_run watched work
  refine ⟨watched'.laid, paused, congrArg Sight.position sight, ⟨_, (congrArg Sight.waiting sight).symm⟩, fun j => ?_⟩
  rw [clock, h.resume]

omit [Container C K] [VideoCodec K] [AudioDecoder D] in
theorem head?_of_front {front pictures : List Picture} (h : front <+: pictures) {head : Picture}
    (hh : front.head? = some head) : pictures.head? = some head := by
  obtain ⟨rest, rfl⟩ := h
  rw [List.head?_append, hh]
  rfl

theorem refresh_front (laid : s.deck.ring.Laid) (running : s.deck.paused = false) {front : List Picture}
    (hfront : front <+: s.deck.ring.pictures) (now : Nat) (master : Option Float) :
    let out := s.deck.ring.outgoing master s.deck.config.threshold
    (s.refresh master).1 = out.getLast? ∧
      out ++ (s.move now (.refresh master)).deck.ring.pictures = s.deck.ring.pictures ∧
      ∀ head, front.head? = some head →
        out.head? =
          if master.any (fun clock => clock + s.deck.config.threshold < head.pts) then none else some head := by
  have refreshed : s.move now (.refresh master) = (s.refresh master).2 := by
    simp only [Session.move, running, Bool.false_eq_true, if_false]
  rw [refreshed]
  exact ⟨PictureRing.refresh_fst .., PictureRing.outgoing_append ..,
    fun head hh => PictureRing.head?_outgoing laid (head?_of_front hfront hh) master _⟩

omit [Container C K] [VideoCodec K] in
/-- What an update makes of a paused session. -/
theorem Halted.update {capacity : Nat} (h : s.Halted capacity) {p : Player C K D} (hp : p.session = some s) (i : Nat) :
    (p.update i).1.picture = none ∧ (p.update i).2.session = some s := by
  simp only [Player.update, hp, h.paused, if_true]
  exact ⟨rfl, trivial⟩

/-- **A pause freezes what is seen.**  From a pause on, while nobody resumes the session, an update shows nothing and
leaves the session as it is.  Each move changes what is seen as `change` says: the position is the time of the marker
that the decode worker came to last, if it came to one; pictures are only appended to those that wait, as long as there
are free slots, until a seek or a marker drops them all; and the clock stands, paused, where the seek that was applied
last has set it.

If no seek is on its way at the pause and none is asked for, then behind the pause, whatever the workers do until the
first refresh, the position and the pictures that wait first are what they were before it, and the clock goes on from
where it stood; and what the first refresh takes from the ring begins with the picture that was the oldest at the pause,
unless by its clock that one is still early. -/
theorem pause_freezes (now : Nat) (config : Config) (container : C) (audio : Option (StreamInfo × D))
    (video : Option (StreamInfo × K)) (before : List (Nat × Move)) (t : Nat) (within : List (Nat × Move))
    (hw : ∀ m ∈ within, m.2.resumes = false) :
    let start : Session C K D := Player.sessionOf now config container audio video
    let s := (start.run before).move t (.setPaused true)
    let u := s.run within
    let changes := s.changes within
    (∀ (p : Player C K D) (i : Nat), p.session = some u →
      (p.update i).1.picture = none ∧ (p.update i).2.session = some u) ∧
    (∀ front m rest, within = front ++ m :: rest →
      let a := s.run front
      (a.move m.1 m.2).sight = ((a.change m.2).map a.sight.after).getD a.sight) ∧
    u.deck.ring.lastPts = (changes.filterMap Change.reset?).getLast?.getD s.deck.ring.lastPts ∧
    ((∀ c ∈ changes, c.empties = false) →
      u.deck.ring.pictures = s.deck.ring.pictures ++ changes.filterMap Change.appended?) ∧
    (∀ front c behind, changes = front ++ c :: behind → c.empties = true → (∀ c ∈ behind, c.empties = false) →
      u.deck.ring.pictures = behind.filterMap Change.appended?) ∧
    u.deck.ring.pictures.length ≤ s.deck.ring.capacity ∧
    u.deck.clock.paused = true ∧
    (∀ i, u.deck.clock.position i =
      ((changes.filterMap Change.clockSet?).getLast?.map Sight.clockAt).getD (s.deck.clock.position t)) ∧
    (∀ target, (changes.filterMap Change.clockSet?).getLast? = some target →
      ∀ i, u.deck.clock.micros i = (seekMicros target).toInt.toNat) ∧
    (s.Unsought → (∀ m ∈ within, m.2.seeks = false) → ∀ i after, (∀ m ∈ after, m.2.isWork = true) →
      let v := (u.move i (.setPaused false)).run after
      let early (clock : Float) (head : Picture) : Bool := decide (clock + v.deck.config.threshold < head.pts)
      v.deck.ring.lastPts = s.deck.ring.lastPts ∧
      s.deck.ring.pictures <+: v.deck.ring.pictures ∧
      (∀ head, s.deck.ring.pictures.head? = some head → v.deck.ring.pictures.head? = some head) ∧
      (∀ j, v.deck.clock.position j = s.deck.clock.position t + (j - i)) ∧
      ∀ j master,
        let out := v.deck.ring.outgoing master v.deck.config.threshold
        (v.refresh master).1 = out.getLast? ∧
        out ++ (v.move j (.refresh master)).deck.ring.pictures = v.deck.ring.pictures ∧
        ∀ head, s.deck.ring.pictures.head? = some head →
          out.head? = if master.any (early · head) then none else some head) := by
  intro start s u changes
  have halted : s.Halted s.deck.ring.capacity := halted_of_setPaused now config container audio video before t
  obtain ⟨halted', sight⟩ : u.Halted s.deck.ring.capacity ∧ u.sight = changes.foldl Sight.after s.sight :=
    halted.run hw
  have position : u.deck.ring.lastPts = (changes.filterMap Change.reset?).getLast?.getD s.deck.ring.lastPts :=
    (congrArg Sight.position sight).trans (s.sight.position_after changes)
  have waiting (h : ∀ c ∈ changes, c.empties = false) :
      u.deck.ring.pictures = s.deck.ring.pictures ++ changes.filterMap Change.appended? :=
    (congrArg Sight.waiting sight).trans (s.sight.waiting_after h)
  have clock (i : Nat) : u.deck.clock.position i =
      ((changes.filterMap Change.clockSet?).getLast?.map Sight.clockAt).getD (s.deck.clock.position t) := by
    rw [halted'.position, halted.position, sight]
    exact s.sight.clock_after changes
  refine ⟨fun p i hp => halted'.update hp i, fun front m rest hsplit => ?_, position, waiting,
    fun front c behind hsplit hc hbehind => ?_, ?_, halted'.clock, clock, fun target hlast i => ?_,
    fun unsought quiet i after work => ?_⟩
  · rw [hsplit] at hw
    have halted'' := (halted.run (fun m' hm' => hw m' (List.mem_append_left _ hm'))).1
    exact (halted''.move m.1 (hw m (List.mem_append_right _ List.mem_cons_self))).2
  · change u.sight.waiting = _
    rw [sight, hsplit]
    exact s.sight.waiting_after_emptied front hc hbehind
  · rw [PictureRing.length_pictures, ← halted'.slots]
    exact halted'.laid.size_le
  · have hlt := (seekMicros target).toInt_lt
    rw [Clock.micros, clock, hlast]
    simp only [Option.map_some, Option.getD_some, Sight.clockAt]
    rw [Nat.mul_div_cancel _ (by decide)]
    refine Nat.mod_eq_of_lt ?_
    change (seekMicros target).toInt.toNat < 2 ^ 64
    omega
  · obtain ⟨still, appends⟩ := unsought.run quiet
    have kept : u.sight = { s.sight with waiting := s.sight.waiting ++ changes.filterMap Change.appended? } :=
      sight.trans (s.sight.after_appends appends)
    obtain ⟨laid, running, last, grown, goes⟩ := halted'.resumed still i work
    have front := List.IsPrefix.trans ⟨_, (congrArg Sight.waiting kept).symm⟩ grown
    refine ⟨last.trans (congrArg Sight.position kept), front, fun head => head?_of_front front, fun j => ?_,
      refresh_front laid running front⟩
    have stood : u.sight.clock = s.deck.clock.position t := (congrArg Sight.clock kept).trans (halted.position t).symm
    rw [goes, stood]

/-- A picture waits at the pause, at five nanoseconds.  The decode worker goes on, another one comes to wait behind it,
and it is the first to be shown when the session has been resumed for seven nanoseconds; or a seek is asked for, and
comes to its marker. -/
theorem pause_freezes_two_runs :
    let stream : StreamInfo := { kind := .video, timeBase := ⟨1, 10⟩, frameRate := ⟨10, 1⟩ }
    let samples := (List.range 4).map (fun n =>
      ({ size := 4, yields := [.frame { timestamp := some (Int64.ofNat n), width := 1, height := 1 }] } :
        Script.Sample))
    let source : Script.Source := { items := (samples.map .sample).toArray }
    let start : Session Script.Source Script.Codec Empty :=
      Player.sessionOf 0 {} source none (some (stream, { items := source.items }))
    let before := List.replicate 15 (1, Move.demux) ++ List.replicate 6 (2, Move.decode)
    let s := (start.run before).move 5 (.setPaused true)
    let still := List.replicate 8 (9, Move.decode)
    let sought := (9, .requestSeek 0.3) :: List.replicate 13 (9, Move.demux) ++ List.replicate 12 (9, Move.decode)
    let after := [(21, Move.demux), (22, Move.decode), (23, Move.takeAudio)]
    let v := ((s.run still).move 20 (.setPaused false)).run after
    (∀ m ∈ still, m.2.resumes = false) ∧ (∀ m ∈ sought, m.2.resumes = false) ∧ s.Unsought ∧
      (∀ m ∈ after, m.2.isWork = true) ∧
      (∃ head, s.deck.ring.pictures = [head] ∧ v.deck.ring.pictures.length = 2 ∧
        (v.deck.ring.outgoing none v.deck.config.threshold).head? = some head) ∧
      v.deck.clock.position 27 = 5 + 7 ∧
      (s.run sought).deck.ring.lastPts = stream.timeBase.seconds 3 ∧
      (s.run sought).deck.clock.micros 20 = 300000 := by
  intro stream samples source start before s still sought after v
  have running : ∀ m ∈ still, m.2.resumes = false := by decide +kernel
  have running' : ∀ m ∈ sought, m.2.resumes = false := by decide +kernel
  have work : ∀ m ∈ after, m.2.isWork = true := by decide +kernel
  have atPause : s.decoder.any (·.point.atMarker) = false ∧ s.deck.pendingSeek = none ∧
      s.demuxer.point.target? = none ∧ (∀ i ∈ s.deck.videoQueue.items, i.isMarker = false) ∧
      s.deck.ring.pictures.length = 1 ∧ s.deck.clock.position 5 = 5 := by decide +kernel
  have behind : v.deck.ring.pictures.length = 2 ∧
      ((s.changes sought).filterMap Change.reset?).getLast? = some (stream.timeBase.seconds 3) ∧
      ((s.changes sought).filterMap Change.clockSet?).getLast? = some 0.3 := by decide +kernel
  obtain ⟨noMarker, pending, target, queued, one, stands⟩ := atPause
  obtain ⟨two, marker, sets⟩ := behind
  obtain ⟨head, hhead⟩ := List.length_eq_one_iff.1 one
  have unsought : s.Unsought := by
    refine ⟨pending, target, queued, fun w hw => ?_⟩
    rw [Option.mem_def.1 hw] at noMarker
    exact noMarker
  have law (within : List (Nat × Move)) (hw : ∀ m ∈ within, m.2.resumes = false) :
      (s.run within).deck.ring.lastPts =
          ((s.changes within).filterMap Change.reset?).getLast?.getD s.deck.ring.lastPts ∧
        (∀ target, ((s.changes within).filterMap Change.clockSet?).getLast? = some target →
          ∀ i, (s.run within).deck.clock.micros i = (seekMicros target).toInt.toNat) ∧
        (s.Unsought → (∀ m ∈ within, m.2.seeks = false) → ∀ i after, (∀ m ∈ after, m.2.isWork = true) →
          let v := ((s.run within).move i (.setPaused false)).run after
          (∀ j, v.deck.clock.position j = s.deck.clock.position 5 + (j - i)) ∧
          ∀ head, s.deck.ring.pictures.head? = some head →
            (v.deck.ring.outgoing none v.deck.config.threshold).head? = some head) := by
    -- the run must not be carried out when the two statements are compared
    clear_value before
    obtain ⟨-, -, position, -, -, -, -, -, micros, resumed⟩ := pause_freezes (C := Script.Source) (K := Script.Codec)
      (D := Empty) 0 {} source none (some (stream, { items := source.items })) before 5 within hw
    refine ⟨position, micros, fun unsought quiet i after work => ?_⟩
    obtain ⟨-, -, -, clock, shows⟩ := resumed unsought quiet i after work
    exact ⟨clock, (shows i none).2.2⟩
  obtain ⟨-, -, resumed⟩ := law still running
  obtain ⟨clock, shows⟩ := resumed unsought (by decide +kernel) 20 after work
  obtain ⟨position, micros, -⟩ := law sought running'
  have reads : v.deck.clock.position 27 = 5 + 7 := by rw [clock 27, stands]
  rw [marker] at position
  have front : s.deck.ring.pictures.head? = some head := congrArg List.head? hhead
  have shown : (v.deck.ring.outgoing none v.deck.config.threshold).head? = some head := by rw [shows head front]
  exact ⟨running, running', unsought, work, ⟨head, hhead, two, shown⟩, reads, position,
    (micros 0.3 sets 20).trans (by decide +kernel)⟩

end Session
end Playhead
