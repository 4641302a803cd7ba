import Playhead.Proofs.BackPressure
import Playhead.Proofs.Closing
import Playhead.Proofs.PausedSessions
import Playhead.Script.Source
/-!
# ShutRing — who opens the ring that a seek has shut

A seek shuts the ring and puts its marker behind that; the decode worker opens the ring when it has come to a marker.
These need not be the marker and the ring of one seek: a seek clears the marker of the one before it, and a marker that
is already in the worker's hands opens the ring for a seek that shut it later.  At every time, though, there is somebody
who is going to open it (`HoldLaw`, kept by everything that can happen to the video queue), until the decode worker has
ended and the session with it (`Lifetime.hold_accounted`).

A `Lifetime` is a session up to its release: behind the actions of `Watched` the driver clears the queues and releases
the pictures, once it has waited for both workers.
-/
namespace Playhead

variable {C K D : Type}

/-! ## The run of a session up to its release -/

def Note.tookMarker : Note → Bool
  | .took .video i => i.isMarker
  | _ => false

def DecodePoint.isReset : DecodePoint → Bool
  | .resetRing _ => true
  | _ => false

/-- What an action of a worker comes to that goes by what it saw of the flag. -/
def Decoder.notesSeeing [VideoCodec K] (seen : Option Bool) (d : Deck) (w : Decoder K) : List Note :=
  seen.elim [] (fun seen => w.notes { d with stop := seen })

namespace Watched

variable [Container C K] [VideoCodec K]

def notes (x : Watched C K D) : Action → List Note
  | .decode => x.session.decoder.elim [] (·.notesSeeing x.seen x.session.deck)
  | .move m _ => x.session.notes m
  | .stop | .flush _ => []

def resets (x : Watched C K D) : Action → Bool
  | .decode => x.session.decoder.any (·.point.isReset)
  | _ => false

end Watched

structure Lifetime (C K D : Type) where
  watched : Watched C K D
  /-- The decode worker has taken a marker, and has not reset the ring since. -/
  owing : Bool := false

namespace Lifetime

inductive Action
  | act (a : Watched.Action)
  | clear (lane : Lane)
  | releaseImages

def deck (x : Lifetime C K D) : Deck := x.watched.session.deck

/-- What the driver does when it has waited for the workers. -/
def release (x : Lifetime C K D) (f : Deck → Deck) : Lifetime C K D :=
  if x.watched.session.isOver then { x with watched := x.watched.withDeck f } else x

variable [Container C K] [VideoCodec K] [AudioDecoder D]

def act (now : Nat) (x : Lifetime C K D) : Action → Lifetime C K D
  | .act a =>
    { watched := x.watched.act now a
      owing := !x.watched.resets a && (x.owing || (x.watched.notes a).any (·.tookMarker)) }
  | .clear .video => x.release (fun d => { d with videoQueue := d.videoQueue.clear })
  | .clear .audio => x.release (fun d => { d with audioQueue := d.audioQueue.clear })
  | .releaseImages => x.release (fun d => { d with ring := d.ring.releaseImages })

def run (x : Lifetime C K D) (actions : List (Nat × Action)) : Lifetime C K D :=
  actions.foldl (fun x a => x.act a.1 a.2) x

theorem run_append (x : Lifetime C K D) (actions actions' : List (Nat × Action)) :
    x.run (actions ++ actions') = (x.run actions).run actions' := List.foldl_append

theorem watched_run (x : Lifetime C K D) (actions : List (Nat × Watched.Action)) :
    (x.run (actions.map (fun a => (a.1, .act a.2)))).watched = x.watched.run actions := by
  induction actions generalizing x with
  | nil => rfl
  | cons a actions ih => exact ih (x.act a.1 (.act a.2))

theorem run_of_reaches {s t : Session C K D} (h : s.Reaches t) :
    ∃ actions, (({ watched := { session := s } } : Lifetime C K D).run actions).watched = { session := t } := by
  obtain ⟨moves, rfl⟩ := h
  obtain ⟨actions, hrun⟩ := Watched.run_of_moves s moves
  exact ⟨_, (watched_run _ actions).trans hrun⟩

end Lifetime

namespace Session

@[simp] theorem isOver_withDeck (s : Session C K D) (f : Deck → Deck) : (s.withDeck f).isOver = s.isOver := rfl

variable [Container C K] [VideoCodec K] [AudioDecoder D]

theorem joinDemuxer_reaches (s : Session C K D) (now steps : Nat) : s.Reaches (s.joinDemuxer now steps).1 := by
  induction steps generalizing s with
  | zero => exact .refl s
  | succ steps ih =>
    unfold joinDemuxer
    split
    · exact .refl s
    · exact (Reaches.move s now .demux).trans (ih _)

theorem joinDecoder_reaches (s : Session C K D) (steps : Nat) : s.Reaches (s.joinDecoder steps).1 := by
  induction steps generalizing s with
  | zero => exact .refl s
  | succ steps ih =>
    unfold joinDecoder
    split
    · exact .refl s
    · exact (Reaches.move s 0 .decode).trans (ih _)

end Session

namespace Lifetime

variable [Container C K] [VideoCodec K] [AudioDecoder D]

/-- **To close a session is such a run**, if both workers come to their end in it. -/
theorem run_of_close {s t : Session C K D} (h : s.Reaches t) {now steps : Nat}
    (hover : (t.close now steps).1.isOver = true) :
    ∃ actions, (({ watched := { session := s } } : Lifetime C K D).run actions).watched.session =
      (t.close now steps).1 := by
  let joined := ((t.beginClose.1.joinDemuxer now steps).1.joinDecoder steps).1
  have hover : joined.isOver = true := hover
  have reached : s.Reaches joined :=
    ((h.trans (.move t now .beginClose)).trans (t.beginClose.1.joinDemuxer_reaches now steps)).trans
      ((t.beginClose.1.joinDemuxer now steps).1.joinDecoder_reaches steps)
  obtain ⟨actions, hrun⟩ := run_of_reaches reached
  refine ⟨actions ++ [(now, .clear .video), (now, .clear .audio), (now, .releaseImages)], ?_⟩
  rw [run_append]
  generalize ({ watched := { session := s } } : Lifetime C K D).run actions = x at hrun
  obtain ⟨watched, owing⟩ := x
  subst hrun
  change _ = joined.finishClose.1
  simp only [run, List.foldl_cons, List.foldl_nil, act, release, Watched.withDeck, Session.isOver_withDeck, hover,
    if_true]
  rfl

end Lifetime

/-! ## The ring -/

/-- A ring that is laid out, and has no pictures while it is shut. -/
structure PictureRing.Tidy (r : PictureRing) : Prop where
  laid : r.Laid
  shutEmpty : r.holding = true → r.size = 0

def Note.Shuts (ns : List Note) : Prop := ∃ us, .shut us ∈ ns

/-- What an action may make of a ring: it stays tidy, and nothing but a seek shuts it. -/
structure PictureRing.Kept (r r' : PictureRing) (ns : List Note) : Prop where
  tidy : r.Tidy → r'.Tidy
  held : r'.holding = true → r.holding = true ∨ Note.Shuts ns

namespace PictureRing

variable {r : PictureRing} {ns : List Note}

theorem tidy_new (capacity : Nat) : (new capacity).Tidy := ⟨laid_new capacity, nofun⟩

theorem Kept.same (r : PictureRing) (ns : List Note) : r.Kept r ns := ⟨id, .inl⟩

theorem Kept.beside {m : RingMove} (h : m.shuts r.holding = true → r.holding = true ∨ Note.Shuts ns) :
    r.Kept (r.beside m) ns where
  tidy := fun t => ⟨t.laid.beside m, size_beside_of_shut t.shutEmpty m⟩
  held := by rwa [holding_beside]

theorem Kept.commit (r : PictureRing) (pts : Float) (image : Image) (ns : List Note) :
    r.Kept (r.commit pts image).1 ns where
  tidy := by
    refine fun t => ⟨t.laid.commit pts image, fun hh => ?_⟩
    rw [holding_commit] at hh
    rw [commit_holding hh]
    exact t.shutEmpty hh
  held := by
    rw [holding_commit]
    exact .inl

theorem Tidy.no_pictures (h : r.Tidy) (hh : r.holding = true) : r.pictures = [] := by
  rw [← List.length_eq_zero_iff, length_pictures]
  exact h.shutEmpty hh

end PictureRing

theorem Decoder.kept_step [VideoCodec K] (d : Deck) (w : Decoder K) (ns : List Note) :
    d.ring.Kept (w.step d).1.ring ns := by
  rcases w.seen_step d with ⟨m, -, hr⟩ | ⟨pts, -, hr⟩ | ⟨-, hr⟩
  · rw [hr]
    exact .beside (m := .reset _) nofun
  · rw [hr]
    exact .commit d.ring pts w.spare ns
  · rw [hr]
    exact .same d.ring ns

theorem Decoder.kept_watch [VideoCodec K] (seen : Option Bool) (d : Deck) (w : Decoder K) (ns : List Note) :
    d.ring.Kept (w.watch seen d).1.ring ns := by
  unfold watch
  split
  · exact w.kept_step d ns
  · exact .same d.ring ns
  · next seen _ => exact w.kept_step { d with stop := seen } ns

theorem Session.kept_move [Container C K] [VideoCodec K] [AudioDecoder D] (s : Session C K D) (now : Nat) {m : Move}
    (hm : m ≠ .decode) : s.deck.ring.Kept (s.move now m).deck.ring (s.notes m) := by
  cases m with
  | demux =>
    change s.deck.ring.Kept (s.demuxer.step now s.deck).1.ring (s.demuxer.notes s.deck)
    rcases s.demuxer.ring_step now s.deck with ⟨target, us, -, hns, hr⟩ | ⟨-, -, -, -, hr⟩ | ⟨-, hr⟩
    · rw [hr, hns]
      exact .beside (m := .clear true) (fun _ => .inr ⟨us, List.mem_singleton_self _⟩)
    · rw [hr]
      exact .beside (m := .clear false) nofun
    · rw [hr]
      exact .same _ _
  | decode => exact absurd rfl hm
  | refresh master =>
    simp only [move]
    split
    · exact .same _ _
    · exact .beside (m := .refresh master s.deck.config.threshold) .inl
  | takeAudio | requestSeek target | setPaused on | beginClose => exact .same _ _

theorem Watched.kept_act [Container C K] [VideoCodec K] [AudioDecoder D] (x : Watched C K D) (now : Nat) (a : Action) :
    x.session.deck.ring.Kept (x.act now a).session.deck.ring (x.notes a) := by
  cases a with
  | decode =>
    change x.session.deck.ring.Kept x.decode.session.deck.ring (x.notes .decode)
    cases hw : x.session.decoder with
    | none =>
      rw [decode_of_none hw]
      exact .same _ _
    | some w =>
      rw [decode_of_decoder hw]
      exact w.kept_watch x.seen x.session.deck _
  | move m hm => exact x.session.kept_move now hm
  | stop => exact .same _ _
  | flush lane => cases lane <;> exact .same _ _

/-! ## The marker -/

/-- The demuxer has cleared the video queue and not put the marker of its seek yet. -/
def Phase.isMarking : Phase → Bool
  | .toShut _ | .toMark _ => true
  | _ => false

theorem DemuxPoint.isMarking_iff {p : DemuxPoint} :
    (p.phase .video).isMarking = true ↔
      ∃ target us, p = .apply target us .holdRing ∨ p = .apply target us .markVideo := by
  cases p with
  | apply target us stage => cases stage <;> simp [DemuxPoint.phase, SeekStage.phase, Phase.isMarking]
  | _ => simp [DemuxPoint.phase, Phase.isMarking]

/-- A marker is nowhere but at the front of the video queue, and there is nothing in front of the marker of a seek.
While the ring is shut a marker is to be put, or is the first that the decode worker comes to, or is in its hands; or
the worker is gone. -/
structure HoldLaw (phase : Phase) (items : List QueueItem) (holding owing gone : Bool) : Prop where
  front : ∀ i ∈ items.tail, i.isMarker = false
  cleared : phase.isMarking = true → items = []
  opener : holding = true →
    phase.isMarking = true ∨ (∃ start, items.head? = some (.marker start)) ∨ owing = true ∨ gone = true

namespace HoldLaw

variable {phase phase' : Phase} {items items' : List QueueItem} {holding holding' owing owing' gone gone' : Bool}

theorem start : HoldLaw .settled [] false false false := ⟨nofun, nofun, nofun⟩

theorem opened (h : HoldLaw phase items holding owing gone) : HoldLaw phase items false owing' gone :=
  ⟨h.front, h.cleared, nofun⟩

theorem mono (h : HoldLaw phase items holding owing gone) (hg : gone = true → gone' = true) :
    HoldLaw phase items holding owing gone' :=
  ⟨h.front, h.cleared, fun hh => (h.opener hh).imp_right (.imp_right (.imp_right hg))⟩

theorem released (h : HoldLaw phase items holding owing gone) (hg : gone = true)
    (hi : items' = items ∨ items' = []) (hh : holding' = holding) : HoldLaw phase items' holding' owing gone := by
  rcases hi with rfl | rfl
  · exact hh ▸ h
  · exact ⟨nofun, fun _ => rfl, fun _ => .inr (.inr (.inr hg))⟩

theorem countP_le_one (h : HoldLaw phase items holding owing gone) : items.countP QueueItem.isMarker ≤ 1 := by
  cases items with
  | nil => exact Nat.zero_le 1
  | cons first rest =>
    have none : rest.countP QueueItem.isMarker = 0 := List.countP_eq_zero.2 (fun i hi => by simp [h.front i hi])
    rw [List.countP_cons, none, Nat.zero_add]
    split <;> decide

/-- The marker at the front is the only one. -/
theorem countP_eq_one (h : HoldLaw phase items holding owing gone) {start : Ticks}
    (hm : items.head? = some (.marker start)) : items.countP QueueItem.isMarker = 1 :=
  Nat.le_antisymm h.countP_le_one (List.countP_pos_iff.2 ⟨_, List.mem_of_mem_head? hm, rfl⟩)

/-- **The law is kept by everything that can happen to the video queue**, with a ring that only a seek shuts. -/
theorem step {stream : StreamInfo} {dest : Packet → Option Lane} {ns : List Note}
    (h : HoldLaw phase items holding owing gone) (hs : Lane.Step .video stream dest phase items ns phase' items')
    (hh : holding' = true → holding = true ∨ Note.Shuts ns) :
    HoldLaw phase' items' holding' (owing || ns.any Note.tookMarker) gone := by
  have held (hn : ¬ Note.Shuts ns) (hh' : holding' = true) := h.opener ((hh hh').resolve_right hn)
  have still (ho : owing = true) : (owing || ns.any Note.tookMarker) = true := by rw [ho, Bool.true_or]
  cases hs with
  | quiet phase items ha =>
    have hn : ¬ Note.Shuts ns := fun ⟨us, hus⟩ => nomatch ha _ hus
    exact ⟨h.front, h.cleared, fun hh' => (held hn hh').imp_right (.imp_right (.imp_left still))⟩
  | seek target us items =>
    have hn : ¬ Note.Shuts [.applied target, .sought us] := fun ⟨us, hus⟩ => by simp at hus
    exact ⟨h.front, nofun, fun hh' => (held hn hh').imp nofun (.imp_right (.imp_left still))⟩
  -- here the marker of an earlier seek may go that was to open the ring; this seek will put its own
  | clear us items => exact ⟨nofun, fun _ => rfl, fun _ => .inl rfl⟩
  | shut us items => exact ⟨h.front, fun _ => h.cleared rfl, fun _ => .inl rfl⟩
  | mark us items =>
    rw [h.cleared rfl]
    exact ⟨nofun, nofun, fun _ => .inr (.inl ⟨_, rfl⟩)⟩
  | @route p items hp =>
    have hn : ¬ Note.Shuts [.routed p, .put .video (.packet p)] := fun ⟨us, hus⟩ => by simp at hus
    cases items with
    | nil => exact ⟨nofun, nofun, fun hh' => (held hn hh').imp nofun (.imp nofun (.imp_left still))⟩
    | cons first rest =>
      refine ⟨fun i hi => ?_, nofun, fun hh' => (held hn hh').imp nofun (.imp_right (.imp_left still))⟩
      rcases List.mem_append.1 hi with hi | hi
      · exact h.front i hi
      · rw [List.mem_singleton.1 hi]
        rfl
  | take phase i items =>
    have hn : ¬ Note.Shuts [.took .video i] := fun ⟨us, hus⟩ => by simp at hus
    refine ⟨fun j hj => h.front j (List.mem_of_mem_tail hj), fun hp => (nomatch h.cleared hp), fun hh' => ?_⟩
    rcases held hn hh' with hp | ⟨start, hm⟩ | ho | hg
    · exact .inl hp
    · -- the marker goes from the front of the queue to the worker's hands
      cases hm
      exact .inr (.inr (.inl (Bool.or_true owing)))
    · exact .inr (.inr (.inl (still ho)))
    · exact .inr (.inr (.inr hg))

end HoldLaw

/-! ## The decode worker and the marker -/

/-- The worker has taken a marker and not reset the ring: it is at it, or it has died of it. -/
structure DecodePoint.Owing (p : DecodePoint) (owing : Bool) : Prop where
  marked : p.atMarker = true → owing = true
  only : owing = true → p.atMarker = true ∨ p = .leaving .died ∨ p = .gone .died

namespace DecodePoint

variable {p q : DecodePoint} {owing : Bool}

theorem Owing.not_owing (h : p.Owing owing) (hm : p.atMarker = false) (he : p.isWorking = true ∨ p = .take) :
    owing = false := by
  rw [← Bool.not_eq_true]
  intro ho
  rcases h.only ho with h | rfl | rfl
  · rw [hm] at h
    cases h
  · rcases he with h | h <;> cases h
  · rcases he with h | h <;> cases h

theorem Owing.not_marked (hm : p.atMarker = false) : p.Owing false :=
  ⟨fun h => absurd (hm.symm.trans h) nofun, nofun⟩

theorem Owing.of_death (hm : p.atMarker = false) (hp : p = .leaving .died ∨ p = .gone .died) : p.Owing owing :=
  ⟨fun h => absurd (hm.symm.trans h) nofun, fun _ => .inr hp⟩

/-- Only from the front of the queue a worker comes to a marker. -/
theorem Way.not_marked {stop : Bool} {seen seen' : Option Bool} {ds : List Deed} (h : Way stop p seen ds q seen')
    (hm : p.atMarker = false) (ht : p ≠ .take) : q.atMarker = false := by
  cases h with
  | look _ | again _ => exact hm
  | item _ | flushed => exact absurd rfl ht
  | flush start => cases hm
  | frame h => rcases h with rfl | ⟨pts, rfl⟩ <;> rfl
  | _ => rfl

end DecodePoint

namespace Decoder

variable [VideoCodec K] {w : Decoder K} {owing : Bool}

theorem notesSeeing_of_ne_take (hp : w.point ≠ .take) (seen : Option Bool) (d : Deck) : w.notesSeeing seen d = [] := by
  cases seen with
  | none => rfl
  | some seen => exact w.notes_of_ne_take hp _

theorem owing_take (h : w.point.Owing owing) (hp : w.point = .take) (seen : Bool) (d : Deck) :
    (w.stepSeeing seen d).2.point.Owing (owing || (w.notesSeeing (some seen) d).any Note.tookMarker) := by
  have hno : owing = false := h.not_owing (by rw [hp]; rfl) (.inr hp)
  have hnotes : w.notesSeeing (some seen) d = w.notes { d with stop := seen } := rfl
  have hstep : (w.stepSeeing seen d).2 = (w.step { d with stop := seen }).2.1 := rfl
  rw [hno, hnotes, hstep, Bool.false_or]
  rcases take_cases hp { d with stop := seen } with ⟨p, hn, hw⟩ | ⟨m, hn, hw⟩ | ⟨hn, hw | hw⟩
  · rw [hn, hw]
    exact .not_marked rfl
  · rw [hn, hw]
    exact ⟨fun _ => rfl, fun _ => .inl rfl⟩
  · rw [hn, hw]
    exact .not_marked rfl
  · rw [hn, hw]
    exact .not_marked (by rw [hp]; rfl)

theorem owing_watch (h : w.point.Owing owing) (seen : Option Bool) (d : Deck) :
    (w.watch seen d).2.1.point.Owing (!w.point.isReset && (owing || (w.notesSeeing seen d).any Note.tookMarker)) := by
  -- only a worker that comes for an item takes a marker, and it goes by what it saw of the flag
  by_cases ht : w.point = .take
  · have hreset : w.point.isReset = false := by rw [ht]; rfl
    have hlooks : w.point.looks = true := by rw [ht]; rfl
    rw [hreset, Bool.not_false, Bool.true_and]
    unfold watch
    rw [hlooks]
    cases seen with
    | none => rwa [notesSeeing, Option.elim_none, List.any_nil, Bool.or_false]
    | some seen => exact owing_take h ht seen d
  · rw [notesSeeing_of_ne_take ht, List.any_nil, Bool.or_false]
    cases hp : w.point with
    | take => exact absurd hp ht
    | flushCodec start =>
      have ho : owing = true := h.marked (by rw [hp]; rfl)
      subst ho
      simp only [watch, step, DecodePoint.looks, hp]
      split
      · exact .of_death rfl (.inl rfl)
      · exact ⟨fun _ => rfl, fun _ => .inl rfl⟩
    | resetRing start =>
      simp only [watch, step, DecodePoint.looks, hp]
      exact .not_marked rfl
    | leaving how =>
      rw [hp] at h
      simp only [watch, step, DecodePoint.looks, hp]
      cases ho : owing with
      | false => exact .not_marked rfl
      | true =>
        rcases h.only ho with hc | hc | hc
        · cases hc
        · cases hc
          exact .of_death rfl (.inr rfl)
        · cases hc
    | gone how =>
      rw [hp] at h
      simp only [watch, step, DecodePoint.looks, hp]
      exact h
    | send _ | receive | place _ | convert _ | commit _ =>
      have hm : w.point.atMarker = false := by rw [hp]; rfl
      have hno : owing = false := h.not_owing hm (.inl (by rw [hp]; rfl))
      rw [hno, Bool.and_false]
      exact .not_marked ((w.watch_way seen d).not_marked hm ht)

theorem isGone_watch (h : w.isGone = true) (seen : Option Bool) (d : Deck) : (w.watch seen d).2.1.isGone = true := by
  obtain ⟨how, hp⟩ := w.isGone_iff.1 h
  simp [watch, step, DecodePoint.looks, isGone, hp]

theorem laneStep_watch (w : Decoder K) (stream : StreamInfo) (seen : Option Bool) (d : Deck) (phase : Phase) :
    Lane.Step .video stream d.laneOf phase d.videoQueue.items (w.notesSeeing seen d) phase
      (w.watch seen d).1.videoQueue.items := by
  unfold watch
  split
  · next hl =>
    have ht : w.point ≠ .take := fun ht => by rw [ht] at hl; cases hl
    have hstep := w.laneStep .video stream d phase
    rw [w.notes_of_ne_take ht] at hstep
    rw [notesSeeing_of_ne_take ht]
    exact hstep
  · exact .quiet phase _ (apart_nil _ _)
  · next seen _ => exact w.laneStep .video stream { d with stop := seen } phase

theorem video_watch (w : Decoder K) (seen : Option Bool) (d : Deck) : (w.watch seen d).1.video = d.video := by
  unfold watch
  split
  · rw [w.step_eq]
  · rfl
  · next seen _ =>
    change (w.step { d with stop := seen }).1.video = d.video
    rw [w.step_eq]

theorem open_watch (h : w.point.isReset = true) (seen : Option Bool) (d : Deck) :
    (w.watch seen d).1.ring.holding = false := by
  cases hp : w.point with
  | resetRing start =>
    simp only [watch, step, DecodePoint.looks, hp]
    rfl
  | _ =>
    rw [hp] at h
    cases h

end Decoder

/-! ## The session -/

theorem Session.notes_beside [Container C K] [VideoCodec K] [AudioDecoder D] (s : Session C K D) {m : Move}
    (hm : m ≠ .decode) :
    (∃ target us, s.demuxer.point = .apply target us .holdRing ∧ s.notes m = [.shut us]) ∨
      ¬ Note.Shuts (s.notes m) ∧ (s.notes m).any Note.tookMarker = false := by
  have untold (h : ∀ n ∈ s.notes m, n.tells = false) :
      ¬ Note.Shuts (s.notes m) ∧ (s.notes m).any Note.tookMarker = false := by
    constructor
    · rintro ⟨us, hus⟩
      cases h _ hus
    · refine List.any_eq_false.2 (fun n hn => ?_)
      rw [Bool.not_eq_true]
      cases n with
      | took lane i =>
        cases lane with
        | video => cases h _ hn
        | audio => rfl
      | _ => rfl
  cases m with
  | demux =>
    rcases s.demuxer.ring_step 0 s.deck with ⟨target, us, hp, hns, -⟩ | ⟨-, -, -, hns, -⟩ | ⟨hns, -⟩
    · exact .inl ⟨target, us, hp, hns⟩
    · refine .inr (untold (fun n hn => ?_))
      change n ∈ s.demuxer.notes s.deck at hn
      rw [hns] at hn
      cases hn
    · exact .inr (untold hns)
  | decode => exact absurd rfl hm
  | refresh master =>
    refine .inr ?_
    simp only [notes]
    split
    · refine ⟨?_, rfl⟩
      rintro ⟨us, hus⟩
      cases hus
    · refine ⟨?_, rfl⟩
      rintro ⟨us, hus⟩
      cases List.mem_singleton.1 hus
  | takeAudio | requestSeek target | setPaused on | beginClose => exact .inr (untold (s.quiet_move 0 rfl).1)

namespace Watched

variable [Container C K] [VideoCodec K] [AudioDecoder D]

/-- **What an action can do to the video queue.** -/
theorem laneStep {x : Watched C K D} {stream : StreamInfo} (hs : x.session.deck.video = some stream) (now : Nat)
    (a : Action) :
    Lane.Step .video stream x.session.deck.laneOf (x.session.demuxer.point.phase .video)
      x.session.deck.videoQueue.items (x.notes a) ((x.act now a).session.demuxer.point.phase .video)
      (x.act now a).session.deck.videoQueue.items := by
  cases a with
  | decode =>
    change Lane.Step .video stream _ _ _ _ (x.decode.session.demuxer.point.phase .video)
      x.decode.session.deck.videoQueue.items
    cases hw : x.session.decoder with
    | none =>
      rw [decode_of_none hw]
      simp only [notes, hw]
      exact .quiet _ _ (apart_nil _ _)
    | some w =>
      rw [decode_of_decoder hw]
      simp only [notes, hw]
      exact w.laneStep_watch stream x.seen x.session.deck _
  | move m hm =>
    have played : x.session.deck.stream? .video = some stream := hs
    exact Session.laneStep played now m
  | stop => exact .quiet _ _ (apart_nil _ _)
  | flush lane => cases lane <;> exact .quiet _ _ (apart_nil _ _)

theorem not_tookMarker (x : Watched C K D) {a : Action} (ha : a ≠ .decode) :
    (x.notes a).any Note.tookMarker = false := by
  cases a with
  | decode => exact absurd rfl ha
  | move m hm =>
    change (x.session.notes m).any Note.tookMarker = false
    rcases x.session.notes_beside hm with ⟨-, us, -, hns⟩ | ⟨-, hns⟩
    · rw [hns]
      rfl
    · exact hns
  | stop => rfl
  | flush lane => rfl

theorem video_act (x : Watched C K D) (now : Nat) (a : Action) :
    (x.act now a).session.deck.video = x.session.deck.video := by
  cases a with
  | decode =>
    change x.decode.session.deck.video = _
    cases hw : x.session.decoder with
    | none => rw [decode_of_none hw]
    | some w =>
      rw [decode_of_decoder hw]
      exact w.video_watch x.seen x.session.deck
  | move m hm => exact (x.session.move_streams now m).1
  | stop => rfl
  | flush lane => cases lane <;> rfl

theorem open_of_resets {x : Watched C K D} {a : Action} (h : x.resets a = true) (now : Nat) :
    (x.act now a).session.deck.ring.holding = false := by
  cases a with
  | decode =>
    change x.decode.session.deck.ring.holding = false
    unfold resets at h
    cases hw : x.session.decoder with
    | none =>
      rw [hw] at h
      cases h
    | some w =>
      rw [hw, Option.any_some] at h
      rw [decode_of_decoder hw]
      exact Decoder.open_watch h x.seen x.session.deck
  | move m hm => cases h
  | stop => cases h
  | flush lane => cases h

end Watched

/-! ### Without video -/

def SeekStage.ofVideo : SeekStage → Bool
  | .clearVideo | .holdRing | .markVideo => true
  | _ => false

theorem Demuxer.not_ofVideo_step [Container C K] {d : Deck} {w : Demuxer C} (hv : d.video = none)
    (h : ∀ target us stage, w.point = .apply target us stage → stage.ofVideo = false) (now : Nat) :
    ∀ target us stage, (w.step now d).2.1.point = .apply target us stage → stage.ofVideo = false := by
  intro target us stage hp
  rcases apply_step hp with ⟨previous, hw, hn⟩ | ⟨-, -, rfl⟩
  · have hprevious := h target us previous hw
    cases previous with
    | clearVideo | holdRing | markVideo => cases hprevious
    | markAudio =>
      simp only [SeekStage.next, hv] at hn
      cases hn
      rfl
    | _ => cases hn <;> rfl
  · unfold SeekStage.first
    rw [hv]
    cases d.audio <;> rfl

/-- A session without video has no decode worker, and no seek of it comes to the video queue or shuts the ring. -/
structure Watched.NoVideo (x : Watched C K D) : Prop where
  video : x.session.deck.video = none
  decoder : x.session.decoder = none
  items : x.session.deck.videoQueue.items = []
  ringOpen : x.session.deck.ring.holding = false
  stage : ∀ target us stage, x.session.demuxer.point = .apply target us stage → stage.ofVideo = false

namespace Watched

variable [Container C K] [VideoCodec K] [AudioDecoder D]

theorem NoVideo.act {x : Watched C K D} (h : x.NoVideo) (now : Nat) (a : Action) : (x.act now a).NoVideo := by
  cases a with
  | decode =>
    change x.decode.NoVideo
    rw [decode_of_none h.decoder]
    exact h
  | move m hm =>
    have played : ¬ x.session.deck.stream? .video ≠ none := fun hn => hn h.video
    refine ⟨(x.video_act now _).trans h.video, (x.session.decoder_move now hm).trans h.decoder,
      (x.session.touch now m .video).items_of_not_played played h.items, ?_, ?_⟩
    · rw [← Bool.not_eq_true]
      intro hh
      rcases x.session.notes_beside hm with ⟨target, us, hp, -⟩ | ⟨hns, -⟩
      · cases h.stage target us .holdRing hp
      · exact hns (((x.session.kept_move now hm).held hh).resolve_left (by simp [h.ringOpen]))
    · change ∀ target us stage, (x.session.move now m).demuxer.point = .apply target us stage → stage.ofVideo = false
      by_cases hd : m = .demux
      · subst hd
        exact Demuxer.not_ofVideo_step h.video h.stage now
      · rw [(x.session.move_slot now hd).1]
        exact h.stage
  | stop => exact ⟨h.video, h.decoder, h.items, h.ringOpen, h.stage⟩
  | flush lane => cases lane <;> exact ⟨h.video, h.decoder, h.items, h.ringOpen, h.stage⟩

end Watched

/-! ### What every session keeps -/

/-- The deck before and after a release: what is not cleared stays. -/
structure Deck.Released (d d' : Deck) : Prop where
  stop : d'.stop = d.stop
  video : d'.video = d.video
  items : d'.videoQueue.items = d.videoQueue.items ∨ d'.videoQueue.items = []
  holding : d'.ring.holding = d.ring.holding
  tidy : d.ring.Tidy → d'.ring.Tidy

namespace Lifetime

variable [Container C K] [VideoCodec K] [AudioDecoder D]

theorem act_cases (x : Lifetime C K D) (now : Nat) (a : Action) :
    (∃ b, a = .act b) ∨ ∃ f : Deck → Deck, (∀ d : Deck, d.Released (f d)) ∧ x.act now a = x.release f := by
  cases a with
  | act b => exact .inl ⟨b, rfl⟩
  | clear lane =>
    cases lane with
    | video =>
      refine .inr ⟨fun d => { d with videoQueue := d.videoQueue.clear }, fun d => ?_, rfl⟩
      exact ⟨rfl, rfl, .inr rfl, rfl, id⟩
    | audio =>
      refine .inr ⟨fun d => { d with audioQueue := d.audioQueue.clear }, fun d => ?_, rfl⟩
      exact ⟨rfl, rfl, .inl rfl, rfl, id⟩
  | releaseImages =>
    refine .inr ⟨fun d => { d with ring := d.ring.releaseImages }, fun d => ⟨rfl, rfl, .inl rfl, rfl, ?_⟩, rfl⟩
    exact fun t => ⟨t.laid.beside .releaseImages, PictureRing.size_beside_of_shut t.shutEmpty .releaseImages⟩

/-- **What every action keeps, a run keeps.** -/
theorem run_keeps {P : Lifetime C K D → Prop} (act : ∀ x now a, P x → P (x.act now (.act a)))
    (release : ∀ x f, (∀ d : Deck, d.Released (f d)) → x.watched.session.isOver = true → P x →
      P { x with watched := x.watched.withDeck f })
    {x : Lifetime C K D} (start : P x) (actions : List (Nat × Action)) : P (x.run actions) := by
  induction actions generalizing x with
  | nil => exact start
  | cons a actions ih =>
    refine ih (x := x.act a.1 a.2) ?_
    rcases x.act_cases a.1 a.2 with ⟨b, hb⟩ | ⟨f, hf, ha⟩
    · rw [hb]
      exact act x a.1 b start
    · rw [ha]
      unfold Lifetime.release
      split
      · next hover => exact release x f hf hover start
      · exact start

/-- The ring is tidy, and a worker that is gone has raised the flag. -/
structure Sound (x : Lifetime C K D) : Prop where
  told : x.watched.Told
  tidy : x.deck.ring.Tidy

theorem Sound.run {x : Lifetime C K D} (h : x.Sound) (actions : List (Nat × Action)) : (x.run actions).Sound := by
  refine run_keeps (fun x now a h => ?_) (fun x f hf _ h => ?_) h actions
  · exact ⟨h.told.act now a, (x.watched.kept_act now a).tidy h.tidy⟩
  · have stop : (f x.deck).stop = x.deck.stop := (hf x.deck).stop
    exact ⟨⟨fun hg => stop.trans (h.told.demuxer hg), fun w hw hg => stop.trans (h.told.decoder w hw hg)⟩,
      (hf x.deck).tidy h.tidy⟩

theorem noVideo_run {x : Lifetime C K D} (h : x.watched.NoVideo) (actions : List (Nat × Action)) :
    (x.run actions).watched.NoVideo := by
  refine run_keeps (P := fun x => x.watched.NoVideo) (fun x now a h => h.act now a) (fun x f hf _ h => ?_) h actions
  have released := hf x.watched.session.deck
  refine ⟨released.video.trans h.video, h.decoder, ?_, released.holding.trans h.ringOpen, h.stage⟩
  rcases released.items with hi | hi
  · exact hi.trans h.items
  · exact hi

/-- The law of a hold, with the decode worker that is bound by it. -/
structure Lawful (stream : StreamInfo) (x : Lifetime C K D) : Prop where
  video : x.deck.video = some stream
  worker : ∃ w, x.watched.session.decoder = some w ∧ w.point.Owing x.owing ∧
    HoldLaw (x.watched.session.demuxer.point.phase .video) x.deck.videoQueue.items x.deck.ring.holding x.owing
      w.isGone

theorem Lawful.act {stream : StreamInfo} {x : Lifetime C K D} (h : x.Lawful stream) (now : Nat)
    (a : Watched.Action) : (x.act now (.act a)).Lawful stream := by
  obtain ⟨hv, w, hw, howing, hlaw⟩ := h
  have law := hlaw.step (Watched.laneStep hv now a) (x.watched.kept_act now a).held
  refine ⟨(x.watched.video_act now a).trans hv, ?_⟩
  -- an action that resets the ring leaves it open, so what the worker owed does not matter any more
  have settled {gone : Bool} (hg : w.isGone = true → gone = true) :
      HoldLaw ((x.watched.act now a).session.demuxer.point.phase .video)
        (x.watched.act now a).session.deck.videoQueue.items (x.watched.act now a).session.deck.ring.holding
        (!x.watched.resets a && (x.owing || (x.watched.notes a).any (·.tookMarker))) gone := by
    cases hr : x.watched.resets a with
    | true =>
      rw [Watched.open_of_resets hr now]
      exact (law.mono hg).opened
    | false =>
      rw [Bool.not_false, Bool.true_and]
      exact law.mono hg
  by_cases ha : a = .decode
  · subst ha
    refine ⟨(w.watch x.watched.seen x.deck).2.1, ?_, ?_, settled (Decoder.isGone_watch · _ _)⟩
    · change x.watched.decode.session.decoder = _
      rw [Watched.decode_of_decoder hw]
      rfl
    · have ho := Decoder.owing_watch howing x.watched.seen x.deck
      have owes : (x.act now (.act .decode)).owing =
          (!w.point.isReset && (x.owing || (w.notesSeeing x.watched.seen x.deck).any Note.tookMarker)) := by
        simp only [Lifetime.act, Lifetime.deck, Watched.resets, Watched.notes, hw, Option.any_some, Option.elim_some]
      rwa [owes]
  · have unmarked : (x.watched.notes a).any (·.tookMarker) = false := x.watched.not_tookMarker ha
    have unreset : x.watched.resets a = false := by cases a <;> first | rfl | exact absurd rfl ha
    have same : (x.act now (.act a)).owing = x.owing := by
      simp only [Lifetime.act, unmarked, unreset, Bool.or_false, Bool.not_false, Bool.true_and]
    refine ⟨w, ?_, same ▸ howing, settled id⟩
    cases a with
    | decode => exact absurd rfl ha
    | move m hm => exact (x.watched.session.decoder_move now hm).trans hw
    | stop => exact hw
    | flush lane => cases lane <;> exact hw

theorem Lawful.run {stream : StreamInfo} {x : Lifetime C K D} (h : x.Lawful stream)
    (actions : List (Nat × Action)) : (x.run actions).Lawful stream := by
  refine run_keeps (fun x now a h => h.act now a) (fun x f hf hover h => ?_) h actions
  obtain ⟨hv, w, hw, howing, hlaw⟩ := h
  have released := hf x.watched.session.deck
  have hgone : w.isGone = true := by
    simpa [Session.isOver, hw] using (Bool.and_eq_true_iff.1 hover).2
  exact ⟨released.video.trans hv, w, hw, howing, hlaw.released hgone released.items released.holding⟩

/-! ## The start -/

omit [VideoCodec K] [AudioDecoder D] in
theorem sound_start (now : Nat) (config : Config) (container : C) (audio : Option (StreamInfo × D))
    (video : Option (StreamInfo × K)) :
    ({ watched := { session := Player.sessionOf now config container audio video } } : Lifetime C K D).Sound :=
  ⟨Watched.told_start now config container audio video, PictureRing.tidy_new config.pictureCapacity⟩

omit [VideoCodec K] [AudioDecoder D] in
theorem lawful_start (now : Nat) (config : Config) (container : C) (audio : Option (StreamInfo × D))
    (stream : StreamInfo) (codec : K) :
    ({ watched := { session := Player.sessionOf now config container audio (some (stream, codec)) } } :
      Lifetime C K D).Lawful stream :=
  ⟨rfl, { codec, stream }, rfl, .not_marked rfl, .start⟩

omit [VideoCodec K] [AudioDecoder D] in
theorem noVideo_start (now : Nat) (config : Config) (container : C) (audio : Option (StreamInfo × D)) :
    ({ session := Player.sessionOf now config container audio none } : Watched C K D).NoVideo :=
  ⟨rfl, rfl, rfl, rfl, nofun⟩

/-! ## What is found at any time -/

/-- **A ring that is shut is going to be opened, as long as there is somebody to open it.**  At any time of a session,
up to its release: a producer that is given a slot is given one that is free, as a ring that is shut has no pictures.
While it is shut there is video, and either the demuxer has cleared the video queue for a seek and has not put the
marker yet, or there is one marker in the video queue, at the front, or the decode worker has taken one and not reset
the ring since, or it is over, and the flag is raised.  In the video queue there is never more than one marker, and
none behind the front. -/
theorem hold_accounted (now : Nat) (config : Config) (container : C) (audio : Option (StreamInfo × D))
    (video : Option (StreamInfo × K)) (actions : List (Nat × Action)) :
    let start : Session C K D := Player.sessionOf now config container audio video
    let x := ({ watched := { session := start } } : Lifetime C K D).run actions
    let s := x.watched.session
    let items := s.deck.videoQueue.items
    (∀ t, start.Reaches t →
      (∃ actions, (({ watched := { session := start } } : Lifetime C K D).run actions).watched.session = t) ∧
      ∀ at_ steps, (t.close at_ steps).1.isOver = true →
        ∃ actions, (({ watched := { session := start } } : Lifetime C K D).run actions).watched.session =
          (t.close at_ steps).1) ∧
    (∀ stop, s.deck.ring.slotFor stop = .free → s.deck.ring.isFull = false) ∧
    (s.deck.ring.holding = true →
      s.deck.ring.pictures = [] ∧ s.deck.video.isSome = true ∧
      ∃ w, s.decoder = some w ∧
        ((∃ target us,
            s.demuxer.point = .apply target us .holdRing ∨ s.demuxer.point = .apply target us .markVideo) ∨
          (items.countP QueueItem.isMarker = 1 ∧ ∃ ticks, items.head? = some (.marker ticks)) ∨
          (x.owing = true ∧ w.isGone = false) ∨
          (w.isGone = true ∧ s.deck.stop = true))) ∧
    (items.countP QueueItem.isMarker ≤ 1 ∧ ∀ i ∈ items.tail, i.isMarker = false) ∧
    ∀ w, s.decoder = some w →
      (w.point.atMarker = true → x.owing = true) ∧
      (x.owing = true → w.point.atMarker = true ∨ w.point = .leaving .died ∨ w.point = .gone .died) := by
  intro start x s items
  have sound : x.Sound := (sound_start now config container audio video).run actions
  refine ⟨fun t ht => ⟨?_, fun at_ steps => run_of_close ht⟩,
    fun stop => PictureRing.isFull_of_free sound.tidy.laid sound.tidy.shutEmpty, ?_⟩
  · obtain ⟨actions, hrun⟩ := run_of_reaches ht
    exact ⟨actions, congrArg Watched.session hrun⟩
  cases video with
  | none =>
    have silent : x.watched.NoVideo := noVideo_run (noVideo_start now config container audio) actions
    have nothing : items = [] := silent.items
    refine ⟨fun hh => absurd (silent.ringOpen.symm.trans hh) nofun, ?_, fun w hw => ?_⟩
    · rw [nothing]
      exact ⟨Nat.zero_le 1, nofun⟩
    · cases silent.decoder.symm.trans hw
  | some v =>
    obtain ⟨hv, w, hw, howing, law⟩ : x.Lawful v.1 :=
      (lawful_start now config container audio v.1 v.2).run actions
    refine ⟨fun hh => ⟨sound.tidy.no_pictures hh, ?_, w, hw, ?_⟩, ⟨law.countP_le_one, law.front⟩, fun w' hw' => ?_⟩
    · exact Option.isSome_iff_exists.2 ⟨v.1, hv⟩
    · rcases law.opener hh with hp | ⟨ticks, hm⟩ | ho | hg
      · exact .inl (DemuxPoint.isMarking_iff.1 hp)
      · exact .inr (.inl ⟨law.countP_eq_one hm, ticks, hm⟩)
      · cases hg : w.isGone with
        | false => exact .inr (.inr (.inl ⟨ho, rfl⟩))
        | true => exact .inr (.inr (.inr ⟨rfl, sound.told.decoder w hw hg⟩))
      · exact .inr (.inr (.inr ⟨hg, sound.told.decoder w hw hg⟩))
    · cases hw.symm.trans hw'
      exact ⟨howing.marked, howing.only⟩

/-- The decode worker is at the marker of a seek when another seek shuts the ring.  The worker opens it for both, and
the marker of the second comes behind that. -/
theorem hold_accounted_second_seek :
    let source : Script.Source := { items := #[.sample { size := 4 }] }
    let start : Session Script.Source Script.Codec Empty :=
      Player.sessionOf 0 {} source none (some ({ kind := .video }, { items := source.items }))
    let demuxes (n : Nat) : List (Nat × Action) := List.replicate n (0, .act (.move .demux nofun))
    let decodes : List (Nat × Action) := List.replicate 2 (0, .act .decode)
    let seek (target : Float) : List (Nat × Action) := [(0, .act (.move (.requestSeek target) nofun))]
    let actions := seek 3 ++ demuxes 7 ++ decodes ++ seek 1 ++ demuxes 13
    let x := ({ watched := { session := start } } : Lifetime Script.Source Script.Codec Empty).run actions
    x.deck.ring.holding = true ∧ x.owing = true ∧ x.deck.videoQueue.items = [] ∧ x.deck.ring.pictures = [] ∧
      (x.run decodes).deck.ring.holding = false ∧
      (x.run (decodes ++ demuxes 1)).deck.videoQueue.items.map QueueItem.isMarker = [true] := by
  intro source start demuxes decodes seek actions x
  have shut : x.deck.ring.holding = true := by decide +kernel
  have noPictures : x.deck.ring.pictures = [] := by
    -- the run must not be carried out when the two statements are compared
    clear_value actions
    obtain ⟨-, -, law, -⟩ := hold_accounted (C := Script.Source) (K := Script.Codec) (D := Empty) 0 {} source none
      (some ({ kind := .video }, { items := source.items })) actions
    exact (law shut).1
  exact ⟨shut, by decide +kernel, by decide +kernel, noPictures, by decide +kernel, by decide +kernel⟩

end Lifetime

end Playhead
