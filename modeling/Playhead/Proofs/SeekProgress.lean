import Playhead.Proofs.FirstFrames
import Playhead.Proofs.PatternWorkers
/-!
# SeekProgress — a seek comes to its first picture

Under a fair schedule a request is done (`done_of_request`): the demuxer goes round until it finds it, and then through
the stages of the seek.  From there on the first picture enters the ring (`picture_of_seek`): the ring is empty, so the
decode worker waits for nothing but items; when it waits, and nothing is on its way to the audio consumer either, the
queues have room and the demuxer comes to read; and there are only so many packets to be read.
-/
namespace Playhead

variable {C K D : Type}

def Session.Along [Container C K] [VideoCodec K] [AudioDecoder D] (start s : Session C K D)
    (notes : List Note) : Prop :=
  ∃ moves, s = start.run moves ∧ notes = start.chronicle moves

theorem Session.Along.move [Container C K] [VideoCodec K] [AudioDecoder D] {start s : Session C K D} {notes : List Note}
    (h : start.Along s notes) (now : Nat) (m : Move) : start.Along (s.move now m) (notes ++ s.notes m) := by
  obtain ⟨moves, rfl, rfl⟩ := h
  exact ⟨moves ++ [(now, m)], (start.run_concat moves (now, m)).symm, (start.chronicle_concat moves (now, m)).symm⟩

/-! ## A request is done -/

/-- How far it is, round the loop, to where a request is found and the seek begins. -/
def DemuxPoint.toFind : DemuxPoint → Nat
  | .poll => 20
  | p => 21 + p.toGo

/-- How far it is to the end of the seek that does a request. -/
def DemuxPoint.toRetire (request : Float) (p : DemuxPoint) : Nat :=
  if p.target?.any (request == ·) then p.toGo else p.toFind

theorem DemuxPoint.toFind_le (p : DemuxPoint) : p.toFind ≤ 21 + p.toGo := by
  unfold toFind
  split
  · exact Nat.le_add_right_of_le (by decide)
  · exact Nat.le_refl _

theorem DemuxPoint.toFind_eq {p : DemuxPoint} (hp : p ≠ .poll) : p.toFind = 21 + p.toGo := by
  unfold toFind
  split
  · exact absurd rfl hp
  · rfl

theorem DemuxPoint.toRetire_lt {request : Float} {p q : DemuxPoint} (ht : q.target? = p.target?) (hp : p ≠ .poll)
    (h : q.toGo < p.toGo) : q.toRetire request < p.toRetire request := by
  unfold toRetire
  rw [ht]
  split
  · exact h
  · have hq := q.toFind_le
    rw [toFind_eq hp]
    omega

theorem SlotStep.nearer {p q : DemuxPoint} {request : Float} {pending : Option Float} {ns : List Note}
    (h : SlotStep p (some request) q pending ns) (hpoll : p ≠ .poll)
    (hseek : ∀ target, p = .seek target → q.target? = some target) (hgo : q.toGo < p.toGo) :
    pending = none ∧ ns = [] ∨ pending = some request ∧ q.toRetire request < p.toRetire request := by
  cases h with
  | find target => exact absurd rfl hpoll
  | @ask target => exact .inr ⟨rfl, DemuxPoint.toRetire_lt (hseek target rfl) hpoll hgo⟩
  | act hp hq => exact .inr ⟨rfl, DemuxPoint.toRetire_lt (hq.1.trans hp.1.symm) hpoll hgo⟩
  | other hp hq => exact .inr ⟨rfl, DemuxPoint.toRetire_lt (hq.trans hp.symm) hpoll hgo⟩
  | retire target =>
    rw [Option.some_beq_some]
    cases hb : request == target with
    | true => exact .inl ⟨if_pos rfl, rfl⟩
    | false =>
      refine .inr ⟨if_neg nofun, ?_⟩
      simp [DemuxPoint.toRetire, DemuxPoint.target?, DemuxPoint.toFind, DemuxPoint.toGo, hb]

namespace TestPattern

abbrev Source.session (s : Source) (now : Nat) (config : Config) (audio : Option (StreamInfo × D)) (codec : Codec) :
    Session Source Codec D :=
  Player.sessionOf now config s audio (some (s.videoStream, codec))

open Source

variable [AudioDecoder D] {s : Source} {d : Deck} {w : Demuxer Source}

theorem retire_nearer (hs : s.Regular) (hc : s.Of w.container) (hstop : d.stop = false) {request : Float}
    (hrequest : (request == request) = true) (hpending : d.pendingSeek = some request) (hloop : 1 < w.point.toGo)
    (now : Nat) :
    (w.step now d).1.pendingSeek = none ∧ w.notes d = [] ∨
      (w.step now d).1.pendingSeek = some request ∧
        (w.step now d).2.1.point.toRetire request < w.point.toRetire request := by
  by_cases htop : w.point = .top
  · refine .inr ?_
    simp only [Demuxer.step, htop, hstop]
    exact ⟨hpending, (by decide : 20 < 23)⟩
  by_cases hpoll : w.point = .poll
  · refine .inr ?_
    simp only [Demuxer.step, hpoll, hpending]
    refine ⟨trivial, ?_⟩
    simp [DemuxPoint.toRetire, DemuxPoint.target?, DemuxPoint.toFind, DemuxPoint.toGo, hrequest]
  · have slot := w.slotStep now d
    rw [hpending] at slot
    refine slot.nearer hpoll (fun target hp => ?_) (((w.toGo_step now d).2 hloop).2 (.inr htop))
    simp only [Demuxer.step, hp, hc.seek_eq hs]
    rfl

theorem pendingSeek_move {x : Session Source Codec D} {m : Move} (hm : m.goesOn = true) (hd : m ≠ .demux) (now : Nat) :
    (x.move now m).deck.pendingSeek = x.deck.pendingSeek ∧ Silent (x.notes m) := by
  obtain ⟨-, ⟨target, rfl, -⟩ | h⟩ := x.move_slot now hd
  · cases hm
  · exact h

/-- **A request is done**: under a fair schedule the slot comes to be empty, and the request is still the newest. -/
theorem done_of_request (hs : s.Regular) (now : Nat) (config : Config) (audio : Option (StreamInfo × D)) (codec : Codec)
    {σ : Schedule} (fair : σ.Fair audio.isSome) {request : Float} (hrequest : (request == request) = true) :
    let start : Session Source Codec D := s.session now config audio codec
    ∀ x notes, start.Along x notes → x.deck.stop = false → x.deck.pendingSeek = some request →
      ∃ n, start.Along (x.run (σ.first n)) (notes ++ x.chronicle (σ.first n)) ∧
        (x.run (σ.first n)).deck.stop = false ∧ (x.run (σ.first n)).deck.pendingSeek = none ∧
        newestRequest (notes ++ x.chronicle (σ.first n)) = some request := by
  intro start x notes along hstop hpending
  let P (x : Session Source Codec D) (notes : List Note) : Prop :=
    start.Along x notes ∧ x.deck.stop = false ∧ x.deck.pendingSeek = some request
  let Q (x : Session Source Codec D) (notes : List Note) : Prop :=
    start.Along x notes ∧ x.deck.stop = false ∧ x.deck.pendingSeek = none ∧ newestRequest notes = some request
  refine Session.leads_to (P := P) (Q := Q) (fun x => x.demuxer.point.toRetire request) (fun _ => .demux)
    (fun x notes now' m hm ⟨along, hstop, hpending⟩ => ?_) fair.goesOn (fun _ _ _ => fair.demux)
    ⟨along, hstop, hpending⟩
  have along' := along.move now' m
  obtain ⟨moves, rfl, rfl⟩ := along
  have healthy := healthy_run hs now config audio codec moves hstop
  have hof := (hs.placed_run now config audio codec moves).of
  have hstop' : ((start.run moves).move now' m).deck.stop = false :=
    (healthy.move hs hof (start.stream_run moves .video) now' (fun hc => by rw [hc] at hm; cases hm)).stop
  by_cases hd : m = .demux
  · subst hd
    rcases retire_nearer hs hof hstop hrequest hpending healthy.demuxer now' with ⟨hnone, hnotes⟩ | ⟨hsome, hless⟩
    · refine .inl ⟨along', hstop', hnone, ?_⟩
      have hnotes : (start.run moves).notes .demux = [] := hnotes
      rw [hnotes, List.append_nil]
      exact (Session.seekLawful_run now config s audio _ moves).newest request hpending
    · exact .inr ⟨⟨along', hstop', hsome⟩, .inl hless⟩
  · obtain ⟨hpending', -⟩ := pendingSeek_move hm hd now' (x := start.run moves)
    refine .inr ⟨⟨along', hstop', hpending'.trans hpending⟩, .inr ⟨?_, rfl, hd⟩⟩
    rw [((start.run moves).move_slot now' hd).1]

end TestPattern

/-! ## The first picture -/

/-- How far it is, round the loop, to where the demuxer reads. -/
def DemuxPoint.toRead (p : DemuxPoint) : Nat := if 7 ≤ p.toGo then p.toGo - 7 else p.toGo + 13

theorem DemuxPoint.toRead_le (p : DemuxPoint) : p.toRead ≤ 19 := by
  have hle := p.toGo_le
  unfold toRead
  split <;> omega

namespace TestPattern

open Source

variable [AudioDecoder D] {s : Source} {d : Deck} {w : Demuxer Source}

/-- More than the packets that a container still has to give. -/
def Source.toCome (c : Source) : Nat := 2 * (c.frameCount - c.position) + c.audioOwed.toNat

def ahead (w : Demuxer Source) : Nat := 2 * w.container.toCome + w.point.inHand.length

theorem toCome_read {c : Source} (h : c.Regular) :
    (∃ p, c.read.1 = .ok (some p)) ∧ c.read.2.toCome < c.toCome ∨
      c.frameCount ≤ c.position ∧ c.read.1 = .ok none ∧ c.read.2.toCome ≤ c.toCome := by
  obtain ⟨hof, hcases⟩ := h.read_cases
  have hcount : c.read.2.frameCount = c.frameCount := by
    rw [hof]
    rfl
  unfold toCome
  rw [hcount]
  rcases hcases with ⟨hlt, hread, hnext⟩ | ⟨howed, ⟨n, hread⟩, hnext, howed'⟩ | ⟨hend, hread, hnext, howed'⟩
  · have howed : c.read.2.audioOwed.toNat ≤ 1 := Bool.toNat_le _
    exact .inl ⟨⟨_, hread⟩, by omega⟩
  · rw [hnext, howed, howed']
    exact .inl ⟨⟨_, hread⟩, Nat.lt_succ_self _⟩
  · rw [hnext, howed']
    exact .inr ⟨hend, hread, Nat.le_add_right _ _⟩

/-- What a step of the demuxer brings: a packet goes on its way; or the deck stays as it is, and either there is less to
be read, or the demuxer comes nearer to its next read, or it is at the end of the medium. -/
def ReadsOn (d : Deck) (w : Demuxer Source) (d' : Deck) (w' : Demuxer Source) : Prop :=
  (∃ p, w.point = .route p ∧ d' = d.route p ∧ ahead w' < ahead w) ∨
    d' = { d with ended := d'.ended } ∧
      (ahead w' < ahead w ∨ ahead w' = ahead w ∧
        (w.point = .read ∧ w.container.frameCount ≤ w.container.position ∨
          (d.audioHasRoom = true → d.videoHasRoom = true → w'.point.toRead < w.point.toRead)))

theorem ReadsOn.goes {q : DemuxPoint} {d' : Deck} {e : Option Event} {now : Nat}
    (hstep : w.step now d = (d', { w with point := q }, e)) (hd : d' = { d with ended := d'.ended })
    (hhand : q.inHand.length = w.point.inHand.length)
    (hread : d.audioHasRoom = true → d.videoHasRoom = true → q.toRead < w.point.toRead) :
    ReadsOn d w (w.step now d).1 (w.step now d).2.1 := by
  rw [hstep]
  exact .inr ⟨hd, .inr ⟨congrArg (2 * w.container.toCome + ·) hhand, .inr hread⟩⟩

theorem reads_on_read (hs : s.Regular) (hc : s.Of w.container) (hp : w.point = .read) (now : Nat) :
    ReadsOn d w (w.step now d).1 (w.step now d).2.1 := by
  have hread : Container.read w.container = w.container.read := rfl
  rcases toCome_read (hc.regular hs) with ⟨⟨p, hp'⟩, hless⟩ | ⟨hend, hnone, hle⟩
  · have hstep : w.step now d = (d, ⟨w.container.read.2, .arrived p⟩, some (.read (.ok (some p)))) := by
      rcases hr : w.container.read with ⟨r, c⟩
      rw [hr] at hp'
      obtain rfl : r = .ok (some p) := hp'
      simp only [Demuxer.step, hp, hread, hr]
    rw [hstep]
    refine .inr ⟨rfl, .inl ?_⟩
    simp only [ahead, hp, DemuxPoint.inHand, List.length_singleton, List.length_nil]
    omega
  · have hstep : w.step now d = (d, ⟨w.container.read.2, .videoIdle⟩, some (.read (.ok none))) := by
      rcases hr : w.container.read with ⟨r, c⟩
      rw [hr] at hnone
      obtain rfl : r = .ok none := hnone
      simp only [Demuxer.step, hp, hread, hr]
    rw [hstep]
    refine .inr ⟨rfl, ?_⟩
    simp only [ahead, hp, DemuxPoint.inHand, List.length_nil]
    rcases Nat.lt_or_eq_of_le hle with hlt | heq
    · exact .inl (by omega)
    · exact .inr ⟨by omega, .inl ⟨trivial, hend⟩⟩

theorem reads_on_room (hp : w.point = .audioRoom ∨ w.point = .videoRoom) (now : Nat) :
    ReadsOn d w (w.step now d).1 (w.step now d).2.1 := by
  rcases hp with hp | hp
  · have hstep : w.step now d = (d, { w with point := if d.audioHasRoom then .videoRoom else .top }, none) := by
      simp only [Demuxer.step, hp]
    refine .goes hstep rfl ?_ (fun ha _ => ?_)
    · rw [hp]
      split <;> rfl
    · rw [hp, if_pos ha]
      decide
  · have hstep : w.step now d = (d, { w with point := if d.videoHasRoom then .read else .top }, none) := by
      simp only [Demuxer.step, hp]
    refine .goes hstep rfl ?_ (fun _ hv => ?_)
    · rw [hp]
      split <;> rfl
    · rw [hp, if_pos hv]
      decide

theorem reads_on_check (hp : w.point = .videoIdle ∨ w.point = .audioIdle ∨ w.point = .ringEmpty ∨ w.point = .markEnded)
    (now : Nat) : ReadsOn d w (w.step now d).1 (w.step now d).2.1 := by
  rcases hp with hp | hp | hp | hp
  · have hstep : w.step now d = (d, { w with point := if d.videoQueue.isIdle then .audioIdle else .top }, none) := by
      simp only [Demuxer.step, hp]
    refine .goes hstep rfl ?_ (fun _ _ => ?_) <;> rw [hp] <;> split <;> decide
  · have hstep : w.step now d = (d, { w with point := if d.audioQueue.isIdle then .ringEmpty else .top }, none) := by
      simp only [Demuxer.step, hp]
    refine .goes hstep rfl ?_ (fun _ _ => ?_) <;> rw [hp] <;> split <;> decide
  · have hstep : w.step now d = (d, { w with point := if d.ring.isEmpty then .markEnded else .top }, none) := by
      simp only [Demuxer.step, hp]
    refine .goes hstep rfl ?_ (fun _ _ => ?_) <;> rw [hp] <;> split <;> decide
  · have hstep : w.step now d = (d.markEnded.2, { w with point := .top }, none) := by
      simp only [Demuxer.step, hp]
    refine .goes hstep ?_ (by rw [hp]; rfl) (fun _ _ => by rw [hp]; decide)
    rw [d.markEnded_eq]

theorem reads_on_step (hs : s.Regular) (hc : s.Of w.container) (hstop : d.stop = false)
    (hpending : d.pendingSeek = none) (hloop : 1 < w.point.toGo) (htarget : w.point.target? = none) (now : Nat) :
    ReadsOn d w (w.step now d).1 (w.step now d).2.1 := by
  cases hp : w.point with
  | seek _ | apply _ _ _ | retire _ =>
    rw [hp] at htarget
    cases htarget
  | leaving _ | gone _ =>
    rw [hp] at hloop
    exact absurd hloop (by simp [DemuxPoint.toGo])
  | start =>
    have hstep : w.step now d = (d, { w with point := .entry d }, none) := by
      simp only [Demuxer.step, hp]
    refine .goes hstep rfl ?_ (fun _ _ => ?_)
    · rw [hp, DemuxPoint.entry]
      split <;> rfl
    · rw [hp, DemuxPoint.entry]
      split <;> simp [DemuxPoint.toRead, DemuxPoint.toGo]
  | top =>
    have hstep : w.step now d = (d, { w with point := .poll }, none) := by
      simp only [Demuxer.step, hp, hstop, Bool.false_eq_true, if_false]
    exact .goes hstep rfl (by rw [hp]; rfl) (fun _ _ => by rw [hp]; decide)
  | poll =>
    have hstep : w.step now d = (d, { w with point := .audioRoom }, none) := by
      simp only [Demuxer.step, hp, hpending, Option.elim_none]
    exact .goes hstep rfl (by rw [hp]; rfl) (fun _ _ => by rw [hp]; decide)
  | audioRoom => exact reads_on_room (.inl hp) now
  | videoRoom => exact reads_on_room (.inr hp) now
  | read => exact reads_on_read hs hc hp now
  | arrived p =>
    have hstep : w.step now d = ({ d with ended := false }, { w with point := .route p }, none) := by
      simp only [Demuxer.step, hp]
    exact .goes hstep rfl (by rw [hp]; rfl) (fun _ _ => by rw [hp]; simp [DemuxPoint.toRead, DemuxPoint.toGo])
  | route p =>
    refine .inl ⟨p, hp, ?_, ?_⟩
    · simp only [Demuxer.step, hp]
    · simp only [Demuxer.step, hp, ahead]
      exact Nat.lt_succ_self _
  | videoIdle => exact reads_on_check (.inl hp) now
  | audioIdle => exact reads_on_check (.inr (.inl hp)) now
  | ringEmpty => exact reads_on_check (.inr (.inr (.inl hp))) now
  | markEnded => exact reads_on_check (.inr (.inr (.inr hp))) now

end TestPattern

theorem DemuxPoint.phase_of_target? {p : DemuxPoint} (h : p.target? = none) (lane : Lane) :
    p.phase lane = .settled := by
  cases p with
  | seek target | retire target | apply target us stage => cases h
  | _ => rfl

theorem Decoder.step_of_waiting {K : Type} [VideoCodec K] {d : Deck} {w : Decoder K} (hstop : d.stop = false)
    (h : w.isWaiting d = true) : (w.step d).1 = d ∧ (w.step d).2.1 = w := by
  cases hp : w.point with
  | take =>
    simp only [isWaiting, hp, Bool.and_eq_true, Bool.not_eq_true'] at h
    obtain ⟨hblocks, hbusy⟩ := h
    have htaken : (d.videoQueue.take d.stop).1 = .nothing := (d.videoQueue.blocks_iff d.stop).1 hblocks
    have hqueue : (d.videoQueue.take d.stop).2 = d.videoQueue := by
      have hi : d.videoQueue.items = [] := by
        simp only [PacketQueue.blocks, Bool.and_eq_true] at hblocks
        exact d.videoQueue.isEmpty_iff.1 hblocks.1.2
      have hpop : d.videoQueue.queued.pop? = none := Fifo.pop?_eq_none.2 hi
      have htake : (d.videoQueue.take false).2 = { d.videoQueue with busy := false } := by
        simp [PacketQueue.take, hpop]
      rw [hstop, htake, ← hbusy]
    simp only [step, hp, htaken, hqueue]
    exact ⟨trivial, trivial⟩
  | place pts =>
    simp only [isWaiting, hp, decide_eq_true_eq] at h
    simp only [step, hp, h]
    exact ⟨trivial, trivial⟩
  | _ =>
    simp only [isWaiting, hp] at h
    cases h

namespace TestPattern

open Source

variable {x : Session Source Codec D}

/-- The decode worker waits for others. -/
def waits (x : Session Source Codec D) : Bool := x.decoder.all (·.isWaiting x.deck)

/-- What the decode worker and the audio consumer still have to do with what they were given. -/
def atHand (x : Session Source Codec D) : Nat := x.decoder.elim 0 (load x.deck) + x.deck.audioQueue.items.length

/-- How far it is to the picture: most of all what is to be read, then what is at hand, and when nothing is, the way of
the demuxer to its next read. -/
def toPicture (x : Session Source Codec D) : Nat :=
  256 * ahead x.demuxer + 20 * atHand x +
    if waits x && x.deck.audioQueue.isEmpty then x.demuxer.point.toRead else 0

/-- Whose move brings the picture nearer. -/
def nextMove (x : Session Source Codec D) : Move :=
  if waits x then if x.deck.audioQueue.isEmpty then .demux else .takeAudio else .decode

theorem toPicture_lt_of_ahead {x y : Session Source Codec D} (h : ahead y.demuxer < ahead x.demuxer)
    (hmore : atHand y ≤ atHand x + 8) : toPicture y < toPicture x := by
  have hle := y.demuxer.point.toRead_le
  unfold toPicture
  split <;> split <;> omega

theorem toPicture_lt_of_atHand {x y : Session Source Codec D} (h : y.demuxer = x.demuxer)
    (hless : atHand y < atHand x) :
    toPicture y < toPicture x := by
  have hle := x.demuxer.point.toRead_le
  unfold toPicture
  rw [h]
  split <;> split <;> omega

variable [AudioDecoder D]

/-- A session that has done the seek to a target, with no other seek asked for since. -/
structure Bound (start : Session Source Codec D) (target : Float) (x : Session Source Codec D) (notes : List Note) :
    Prop where
  along : start.Along x notes
  stop : x.deck.stop = false
  pending : x.deck.pendingSeek = none
  applied : lastApplied notes = some target

def shown (start x : Session Source Codec D) (notes : List Note) : List Picture :=
  (Epoch.after start.deck.laneOf {} notes).left ++ x.deck.ring.pictures

section

variable {s : Source} {now : Nat} {config : Config} {audio : Option (StreamInfo × D)} {codec : Codec} {target : Float}
  {notes : List Note}

theorem Bound.healthy (hs : s.Regular) (h : Bound (s.session now config audio codec) target x notes) :
    Healthy x ∧ s.Of x.demuxer.container ∧ x.deck.video = some s.videoStream ∧ x.demuxer.point.target? = none := by
  have hpending := h.pending
  have hstop := h.stop
  obtain ⟨moves, rfl, rfl⟩ := h.along
  have law := Session.seekLawful_run now config s audio (some (s.videoStream, codec)) moves
  refine ⟨healthy_run hs now config audio codec moves hstop, (hs.placed_run now config audio codec moves).of,
    Session.stream_run _ moves .video, Option.eq_none_iff_forall_ne_some.2 (fun t ht => ?_)⟩
  have hsome := law.seeking t ht
  rw [hpending] at hsome
  cases hsome

/-- It is in the epoch of that seek. -/
theorem Bound.seek (hs : s.Regular) (h : Bound (s.session now config audio codec) target x notes) :
    (Epoch.after (s.session now config audio codec).deck.laneOf {} notes).seek = some (seekMicros target) := by
  obtain ⟨-, -, -, htarget⟩ := h.healthy hs
  have happlied := h.applied
  obtain ⟨moves, rfl, rfl⟩ := h.along
  have aims := hs.aims_run now config audio codec moves
  dsimp only at aims
  rw [DemuxPoint.phase_of_target? htarget, happlied] at aims
  exact aims

theorem Bound.move (hs : s.Regular) (h : Bound (s.session now config audio codec) target x notes) (now' : Nat)
    {m : Move} (hm : m.goesOn = true) :
    Bound (s.session now config audio codec) target (x.move now' m) (notes ++ x.notes m) := by
  obtain ⟨healthy, hof, hv, htarget⟩ := h.healthy hs
  have hclose : m ≠ .beginClose := by
    intro hc
    rw [hc] at hm
    cases hm
  refine ⟨h.along.move now' m, (healthy.move hs hof hv now' hclose).stop, ?_, ?_⟩
  · by_cases hd : m = .demux
    · subst hd
      have slot := x.demuxer.slotStep now' x.deck
      rw [h.pending] at slot
      rcases slot.slot with hsame | ⟨t, -, hb⟩
      · exact hsame
      · cases hb
    · exact (pendingSeek_move hm hd now').1.trans h.pending
  · have silent : ∀ n ∈ x.notes m, n.applied? = none := by
      by_cases hd : m = .demux
      · subst hd
        refine (x.demuxer.slotStep now' x.deck).not_applied (fun t hp => ?_)
        rw [hp] at htarget
        cases htarget
      · exact x.not_applied_of_ne_demux hd
    exact (lastApplied_append_of_none silent notes).trans h.applied

end

theorem nearer_decode (h : Healthy x) (now : Nat) :
    toPicture (x.move now .decode) < toPicture x ∨ x.move now .decode = x ∧ waits x = true := by
  cases hw : x.decoder with
  | none =>
    refine .inr ⟨?_, ?_⟩
    · simp only [Session.move, Session.decode, hw]
    · rw [waits, hw]
      rfl
  | some w =>
    have hmove : x.move now .decode = { x with deck := (w.step x.deck).1, decoder := some (w.step x.deck).2.1 } := by
      simp only [Session.move, Session.decode, hw]
    cases hwaits : w.isWaiting x.deck with
    | true =>
      obtain ⟨hdeck, hsame⟩ := Decoder.step_of_waiting h.stop hwaits
      refine .inr ⟨?_, ?_⟩
      · rw [hmove, hdeck, hsame, ← hw]
      · rw [waits, hw]
        exact hwaits
    | false =>
      obtain ⟨-, -, hload⟩ := nearer_step h.stop h.flushing (h.decoder w hw) (h.sent w hw)
      refine .inl (toPicture_lt_of_atHand ?_ ?_)
      · rw [hmove]
      · rw [hmove, atHand, atHand, hw]
        change load (w.step x.deck).1 (w.step x.deck).2.1 + (w.step x.deck).1.audioQueue.items.length <
          load x.deck w + x.deck.audioQueue.items.length
        rw [w.audioQueue_step]
        exact Nat.add_lt_add_right (hload hwaits) _

theorem nearer_takeAudio (hstop : x.deck.stop = false) (now : Nat) :
    toPicture (x.move now .takeAudio) < toPicture x ∨
      toPicture (x.move now .takeAudio) = toPicture x ∧ nextMove (x.move now .takeAudio) = nextMove x ∧
        x.deck.audioQueue.isEmpty = true := by
  have hmove : x.move now .takeAudio =
      x.withDeck ({ · with audioQueue := (x.deck.audioQueue.take false).2 }) := by
    rw [← hstop]
    rfl
  rw [hmove]
  cases hi : x.deck.audioQueue.items with
  | nil =>
    have hitems := (PacketQueue.take_of_nil hi).2
    have hempty : x.deck.audioQueue.isEmpty = true := x.deck.audioQueue.isEmpty_iff.2 hi
    have hempty' : (x.deck.audioQueue.take false).2.isEmpty = true := PacketQueue.isEmpty_iff _ |>.2 hitems
    refine .inr ⟨?_, ?_, hempty⟩
    · simp only [toPicture, atHand, hi, hempty, Session.withDeck, hitems, hempty']
      rfl
    · simp only [nextMove, hempty, Session.withDeck, hempty']
      rfl
  | cons i items =>
    refine .inl (toPicture_lt_of_atHand rfl ?_)
    simp only [atHand, hi, Session.withDeck, (PacketQueue.take_of_cons hi).2, List.length_cons]
    exact Nat.lt_succ_self _

theorem refresh_of_empty (hempty : x.deck.ring.pictures = []) (master : Option Float) (now : Nat) :
    x.move now (.refresh master) = x := by
  have hring : (x.deck.ring.refresh master x.deck.config.threshold).2 = x.deck.ring := by
    have hsize : x.deck.ring.isEmpty = true := by
      rw [PictureRing.isEmpty, beq_iff_eq, ← PictureRing.length_pictures, hempty]
      rfl
    rw [PictureRing.refresh.eq_def, hsize]
    rfl
  simp only [Session.move, Session.refresh, Session.withDeck, hring]
  split <;> rfl

theorem length_route (d : Deck) (p : Packet) :
    (d.route p).audioQueue.items.length ≤ d.audioQueue.items.length + 8 ∧
      8 * (d.route p).videoQueue.items.length + (d.route p).audioQueue.items.length ≤
        8 * d.videoQueue.items.length + d.audioQueue.items.length + 8 := by
  unfold Deck.route
  split
  · simp only [PacketQueue.items_put, List.length_append, List.length_singleton]
    omega
  · split
    · simp only [PacketQueue.items_put, List.length_append, List.length_singleton]
      omega
    · omega

omit [AudioDecoder D] in
theorem atHand_route (x : Session Source Codec D) (p : Packet) (w : Demuxer Source) :
    atHand { x with deck := x.deck.route p, demuxer := w } ≤ atHand x + 8 := by
  obtain ⟨haudio, hboth⟩ := length_route x.deck p
  unfold atHand
  cases x.decoder with
  | none =>
    simp only [Option.elim_none]
    omega
  | some w =>
    simp only [Option.elim_some, load, Deck.busy_route]
    omega

theorem nearer_demux {s : Source} (hs : s.Regular) (hc : s.Of x.demuxer.container) (healthy : Healthy x)
    (hpending : x.deck.pendingSeek = none) (htarget : x.demuxer.point.target? = none)
    (room : waits x = true → x.deck.audioQueue.isEmpty = true →
      x.deck.audioHasRoom = true ∧ x.deck.videoHasRoom = true ∧
        ¬ (x.demuxer.point = .read ∧ x.demuxer.container.frameCount ≤ x.demuxer.container.position)) (now : Nat) :
    toPicture (x.move now .demux) < toPicture x ∨
      toPicture (x.move now .demux) = toPicture x ∧ nextMove (x.move now .demux) = nextMove x ∧
        (waits x && x.deck.audioQueue.isEmpty) = false := by
  have hmove : x.move now .demux =
      { x with deck := (x.demuxer.step now x.deck).1, demuxer := (x.demuxer.step now x.deck).2.1 } := rfl
  have hon := reads_on_step hs hc healthy.stop hpending healthy.demuxer htarget now
  rw [hmove]
  generalize (x.demuxer.step now x.deck).1 = d at hon ⊢
  generalize (x.demuxer.step now x.deck).2.1 = w at hon ⊢
  rcases hon with ⟨p, -, rfl, hless⟩ | ⟨hd, hread⟩
  · exact .inl (toPicture_lt_of_ahead hless (atHand_route x p w))
  · -- the queues and the ring are as they were
    have hhand : atHand { x with deck := d, demuxer := w } = atHand x := by
      rw [hd]
      rfl
    have hwaits : waits { x with deck := d, demuxer := w } = waits x := by
      rw [hd]
      rfl
    have haudio : d.audioQueue = x.deck.audioQueue := by rw [hd]
    rcases hread with hless | ⟨hahead, hread⟩
    · exact .inl (toPicture_lt_of_ahead hless (by omega))
    · cases hidle : waits x && x.deck.audioQueue.isEmpty with
      | false =>
        refine .inr ⟨?_, ?_, rfl⟩
        · simp only [toPicture, hhand, hwaits, haudio, hidle, hahead]
          rfl
        · simp only [nextMove, hwaits, haudio]
      | true =>
        obtain ⟨hw, hempty⟩ := Bool.and_eq_true _ _ |>.mp hidle
        obtain ⟨hroom, hroom', hnot⟩ := room hw hempty
        have hnext := (hread.resolve_left hnot) hroom hroom'
        refine .inl ?_
        simp only [toPicture, hhand, hwaits, haudio, hidle, hahead, if_true]
        omega

section

variable {s : Source} {now : Nat} {config : Config} {audio : Option (StreamInfo × D)} {codec : Codec} {target : Float}
  {notes : List Note} {j : Nat}

theorem Bound.taking (hfresh : codec.pending.toList = [])
    (h : Bound (s.session now config audio codec) target x notes)
    (hring : x.deck.ring.pictures = []) (hwaits : waits x = true) : x.deck.videoQueue.isIdle = true := by
  have hstop := h.stop
  obtain ⟨moves, rfl, rfl⟩ := h.along
  let start : Session Source Codec D := s.session now config audio codec
  have law : (start.run moves).EpochLawful Codec.contract s.videoStream codec start.deck.laneOf
      (start.chronicle moves) :=
    Session.epochLawful_run now config s audio hfresh moves
  obtain ⟨w, hw, law⟩ := law.worker
  rw [waits, hw, Option.all_some] at hwaits
  rcases Decoder.waiting_cases hstop hwaits with ⟨-, hitems, hbusy⟩ | ⟨pts, -, hfull⟩
  · exact PacketQueue.isIdle_iff _ |>.2 ⟨hitems, hbusy⟩
  · rw [← PictureRing.length_pictures, hring] at hfull
    exact absurd hfull (Nat.not_le.2 law.laid.capacity_pos)

theorem Bound.audio_empty (h : Bound (s.session now config audio codec) target x notes)
    (haudio : audio = none) : x.deck.audioQueue.isEmpty = true := by
  obtain ⟨moves, rfl, rfl⟩ := h.along
  have law := Session.pressureLaw_run now config s audio (some (s.videoStream, codec)) moves .audio
  refine (PacketQueue.isEmpty_iff _).2 (law.unplayed ?_)
  rw [Session.stream_run, haudio]
  rfl

/-- While no picture is there, the demuxer is not held up by the queues, nor is it at the end of the medium. -/
theorem Bound.room (hs : s.Regular) (hfresh : codec.pending.toList = [])
    (h : Bound (s.session now config audio codec) target x notes)
    (hnone : shown (s.session now config audio codec) x notes = [])
    (hj : s.FirstAt (seekMicros target) j) (hcount : j < s.frameCount) (hwaits : waits x = true)
    (hempty : x.deck.audioQueue.isEmpty = true) :
    x.deck.audioHasRoom = true ∧ x.deck.videoHasRoom = true ∧
      ¬ (x.demuxer.point = .read ∧ x.demuxer.container.frameCount ≤ x.demuxer.container.position) := by
  have hidle := h.taking hfresh (List.append_eq_nil_iff.1 hnone).2 hwaits
  have healthy := (h.healthy hs).1
  have hseek := h.seek hs
  let start : Session Source Codec D := s.session now config audio codec
  obtain ⟨moves, rfl, rfl⟩ := h.along
  have counted (lane : Lane) :=
    (Session.pressureLaw_run now config s audio (some (s.videoStream, codec)) moves lane).counted
  refine ⟨(Deck.audioHasRoom_iff _).2 (.inr ?_), (Deck.videoHasRoom_iff _).2 (.inr ?_), fun ⟨hp, hend⟩ => ?_⟩
  · have hitems := (PacketQueue.isEmpty_iff _).1 hempty
    rw [counted .audio, Deck.queue, hitems]
    exact Nat.zero_le _
  · have hitems := ((PacketQueue.isIdle_iff _).1 hidle).1
    rw [counted .video, Deck.queue, hitems]
    exact Nat.zero_le _
  · have hsettled : (start.run moves).demuxer.point.phase .video = .settled := by rw [hp]; rfl
    have hhand : (start.run moves).demuxer.point.inHand = [] := by rw [hp]; rfl
    have hframes : (start.run moves).demuxer.container.frameCount = s.frameCount := by
      rw [(hs.placed_run now config audio codec moves).of]
      rfl
    refine (hs.first_run now config audio hfresh moves _ hseek).2 j hj ?_ healthy.decoder hsettled hhand hidle hnone
    exact Nat.lt_of_lt_of_le (hframes ▸ hcount) hend

theorem Bound.nearer (hs : s.Regular) (hfresh : codec.pending.toList = [])
    (h : Bound (s.session now config audio codec) target x notes)
    (hnone : shown (s.session now config audio codec) x notes = [])
    (hj : s.FirstAt (seekMicros target) j) (hcount : j < s.frameCount) (now' : Nat) {m : Move} (hm : m.goesOn = true) :
    toPicture (x.move now' m) < toPicture x ∨
      toPicture (x.move now' m) = toPicture x ∧ nextMove (x.move now' m) = nextMove x ∧ m ≠ nextMove x := by
  obtain ⟨healthy, hof, -, htarget⟩ := h.healthy hs
  have hring : x.deck.ring.pictures = [] := (List.append_eq_nil_iff.1 hnone).2
  have other {m : Move} (hd : m ≠ .decode) (ht : m ≠ .takeAudio) (hx : m ≠ .demux) : m ≠ nextMove x := by
    unfold nextMove
    split
    · split
      · exact hx
      · exact ht
    · exact hd
  cases m with
  | requestSeek _ | beginClose => cases hm
  | decode =>
    refine (nearer_decode healthy now').imp_right (fun ⟨hsame, hwaits⟩ => ?_)
    rw [hsame]
    refine ⟨rfl, rfl, ?_⟩
    rw [nextMove, if_pos hwaits]
    split <;> simp
  | takeAudio =>
    refine (nearer_takeAudio healthy.stop now').imp_right (fun ⟨hrank, hnext, hempty⟩ => ⟨hrank, hnext, ?_⟩)
    rw [nextMove, if_pos hempty]
    split <;> simp
  | demux =>
    refine (nearer_demux hs hof healthy h.pending htarget (h.room hs hfresh hnone hj hcount) now').imp_right
      (fun ⟨hrank, hnext, hidle⟩ => ⟨hrank, hnext, ?_⟩)
    unfold nextMove
    split
    · next hwaits =>
      rw [hwaits, Bool.true_and] at hidle
      rw [hidle]
      simp
    · simp
  | refresh master =>
    rw [refresh_of_empty hring]
    exact .inr ⟨rfl, rfl, other (by simp) (by simp) (by simp)⟩
  | setPaused on => exact .inr ⟨rfl, rfl, other (by simp) (by simp) (by simp)⟩

/-- **The picture comes**: once a seek is done, a fair schedule brings the first picture of its epoch, if there is a
frame for it. -/
theorem picture_of_seek (hs : s.Regular) (hfresh : codec.pending.toList = []) {σ : Schedule}
    (fair : σ.Fair audio.isSome)
    (h : Bound (s.session now config audio codec) target x notes)
    (hj : s.FirstAt (seekMicros target) j) (hcount : j < s.frameCount) :
    ∃ n, Bound (s.session now config audio codec) target (x.run (σ.first n)) (notes ++ x.chronicle (σ.first n)) ∧
      shown (s.session now config audio codec) (x.run (σ.first n)) (notes ++ x.chronicle (σ.first n)) ≠ [] := by
  let start : Session Source Codec D := s.session now config audio codec
  by_cases hnone : shown start x notes = []
  · refine Session.leads_to (P := fun x notes => Bound start target x notes ∧ shown start x notes = [])
      (Q := fun x notes => Bound start target x notes ∧ shown start x notes ≠ []) toPicture nextMove
      (fun x notes now' m hm ⟨h, hnone⟩ => ?_) fair.goesOn (fun x notes ⟨h, _⟩ => ?_) ⟨h, hnone⟩
    · have next := h.move hs now' hm
      by_cases hnone' : shown start (x.move now' m) (notes ++ x.notes m) = []
      · exact .inr ⟨⟨next, hnone'⟩, h.nearer hs hfresh hnone hj hcount now' hm⟩
      · exact .inl ⟨next, hnone'⟩
    · unfold nextMove
      split
      · split
        · exact fair.demux
        · next hempty =>
          refine fair.takeAudio ?_
          by_contra hsome
          exact hempty (h.audio_empty (Option.not_isSome_iff_eq_none.1 hsome))
      · exact fair.decode
  · refine ⟨0, ?_⟩
    have hnotes : notes ++ x.chronicle (σ.first 0) = notes := List.append_nil notes
    rw [hnotes]
    exact ⟨h, hnone⟩

end

end TestPattern
end Playhead
