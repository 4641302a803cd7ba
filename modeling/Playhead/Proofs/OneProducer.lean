import Playhead.Proofs.BoundedLine
import Playhead.Proofs.EpochPictures
import Playhead.Proofs.Unwinding
/-!
# OneProducer — handing in a picture while others use the ring

A producer looks for a slot, converts its picture outside the lock, and commits it.  Others may come in between, so the
commit does not see the ring that was looked at.  A `RingUse` is a ring with its one producer and everybody else, in any
order; `RingUse.Sound` is what holds of it at every time.  The reason that a slot is still there at the commit: whatever
others do only frees slots (`PictureRing.size_beside_le`), and a producer that was let through because the ring holds
finds an empty one (`Sound.shutEmpty`).  The decode worker of a session is such a producer (`Session.sound_run`).
-/
namespace Playhead

/-- What a producer does to its buffer. -/
abbrev Conversion := Image → Outcome Unit × Image

/-- Where a producer is in the call that hands in a picture. -/
inductive ProducerPoint
  | away
  | place (pts : Float) (conversion : Conversion)
  | convert (pts : Float) (conversion : Conversion)
  | commit (pts : Float)

/-- The stop flag is raised and never taken back. -/
inductive RingMove
  /-- The producer calls; it can not while its last call goes on. -/
  | call (pts : Float) (conversion : Conversion)
  | goOn
  | refresh (master : Option Float) (threshold : Float)
  | clear (hold : Bool)
  | reset (pts : Float)
  | releaseImages
  | stop

inductive RingNote
  | called (pts : Float) (conversion : Conversion)
  /-- The buffer as it was handed to the conversion, and as it was left. -/
  | converted (handed left : Image)
  | appended (p : Picture)
  | returned (answer : Outcome Bool)

/-- A clear sets whether the ring is shut, a reset opens it. -/
def RingMove.shuts (shut : Bool) : RingMove → Bool
  | .clear hold => hold
  | .reset _ => false
  | _ => shut

/-- A clear has shut the ring, and no reset and no other clear came since. -/
def RingMove.shut (moves : List RingMove) : Bool := moves.foldl RingMove.shuts false

namespace PictureRing

def beside (r : PictureRing) : RingMove → PictureRing
  | .refresh master threshold => (r.refresh master threshold).2
  | .clear hold => r.clear hold
  | .reset pts => r.reset pts
  | .releaseImages => r.releaseImages
  | .call _ _ | .goOn | .stop => r

def accepts (r : PictureRing) : Bool := !(r.holding || r.isFull)

end PictureRing

structure RingUse where
  ring : PictureRing
  /-- The buffer of the producer. -/
  spare : Image := {}
  stop : Bool := false
  point : ProducerPoint := .away

namespace RingUse

def goOn (u : RingUse) : List RingNote × RingUse :=
  match u.point with
  | .away => ([], u)
  | .place pts conversion =>
    match u.ring.slotFor u.stop with
    | .free => ([], { u with point := .convert pts conversion })
    | .wait => ([], u)
    | .stopped => ([.returned (.ok false)], { u with point := .away })
  | .convert pts conversion =>
    match conversion u.spare with
    | (.ok (), image) => ([.converted u.spare image], { u with spare := image, point := .commit pts })
    | (.error e, image) =>
      ([.converted u.spare image, .returned (.error e)], { u with spare := image, point := .away })
    | (.died, image) => ([.converted u.spare image, .returned .died], { u with spare := image, point := .away })
  | .commit pts =>
    let (ring, spare) := u.ring.commit pts u.spare
    ((if u.ring.accepts then [.appended ⟨pts, u.spare⟩] else []) ++ [.returned (.ok true)],
      { u with ring, spare, point := .away })

def move (u : RingUse) (m : RingMove) : List RingNote × RingUse :=
  match m with
  | .call pts conversion =>
    match u.point with
    | .away => ([.called pts conversion], { u with point := .place pts conversion })
    | _ => ([], u)
  | .goOn => u.goOn
  | .stop => ([], { u with stop := true })
  | _ => ([], { u with ring := u.ring.beside m })

def run (u : RingUse) (moves : List RingMove) : RingUse := moves.foldl (fun u m => (u.move m).2) u

def history (u : RingUse) : List RingMove → List RingNote
  | [] => []
  | m :: moves => (u.move m).1 ++ (u.move m).2.history moves

theorem run_append (u : RingUse) (moves moves' : List RingMove) :
    u.run (moves ++ moves') = (u.run moves).run moves' := List.foldl_append

end RingUse

def ProducerPoint.hasSlot : ProducerPoint → Bool
  | .convert _ _ | .commit _ => true
  | _ => false

/-- What the last notes are while a call goes on. -/
def ProducerPoint.Told (spare : Image) (notes : List RingNote) : ProducerPoint → Prop
  | .away => True
  | .place pts conversion | .convert pts conversion => [.called pts conversion] <:+ notes
  | .commit pts => ∃ conversion handed,
      [.called pts conversion, .converted handed spare] <:+ notes ∧ conversion handed = (.ok (), spare)

structure RingUse.Sound (u : RingUse) (moves : List RingMove) (notes : List RingNote) : Prop where
  laid : u.ring.Laid
  held : u.ring.holding = RingMove.shut moves
  shutEmpty : u.ring.holding = true → u.ring.size = 0
  room : u.point.hasSlot = true → u.ring.isFull = false
  told : u.point.Told u.spare notes
  stopped : u.stop = true → .stop ∈ moves

namespace PictureRing

variable {r : PictureRing}

/-! ## What the others do -/

theorem size_beside_le (r : PictureRing) (m : RingMove) : (r.beside m).size ≤ r.size := by
  cases m with
  | refresh master threshold =>
    rcases r.refresh_cases master threshold with h | ⟨skip, -, h⟩
    · exact Nat.le_of_eq (congrArg (fun p => p.2.size) h)
    · rw [beside, h]
      exact Nat.sub_le _ _
  | clear hold | reset pts | releaseImages => exact Nat.zero_le _
  | call pts conversion | goOn | stop => exact Nat.le_refl _

theorem capacity_beside (r : PictureRing) (m : RingMove) : (r.beside m).capacity = r.capacity := by
  cases m with
  | refresh master threshold => exact congrArg Array.size (r.refresh_keeps master threshold).1
  | releaseImages => exact Array.size_map
  | _ => rfl

theorem holding_beside (r : PictureRing) (m : RingMove) : (r.beside m).holding = m.shuts r.holding := by
  cases m with
  | refresh master threshold => exact (r.refresh_keeps master threshold).2.1
  | _ => rfl

theorem Laid.beside (h : r.Laid) (m : RingMove) : (r.beside m).Laid := by
  cases m with
  | refresh master threshold => exact (r.refresh_keeps master threshold).2.2.2 h
  | clear hold => exact h.clear hold
  | reset pts => exact h.reset pts
  | releaseImages => exact h.releaseImages
  | call pts conversion | goOn | stop => exact h

/-- What others do to a ring that is shut, they do to an empty one; a clear that shuts it empties it. -/
theorem size_beside_of_shut (h : r.holding = true → r.size = 0) (m : RingMove) :
    (r.beside m).holding = true → (r.beside m).size = 0 := by
  intro hs
  rw [holding_beside] at hs
  cases m with
  | clear hold => rfl
  | reset pts => cases hs
  | _ => exact Nat.eq_zero_of_le_zero (h hs ▸ r.size_beside_le _)

theorem isFull_beside (h : r.isFull = false) (m : RingMove) : (r.beside m).isFull = false := by
  have hsize := r.size_beside_le m
  simp only [isFull, decide_eq_false_iff_not, Nat.not_le, capacity_beside] at *
  omega

/-! ## What the producer finds -/

/-- A producer gets a slot if the ring is not full, or if it is shut; then it is empty. -/
theorem isFull_of_free (hl : r.Laid) (h : r.holding = true → r.size = 0) {stop : Bool}
    (hf : r.slotFor stop = .free) : r.isFull = false := by
  cases hfull : r.isFull with
  | false => rfl
  | true =>
    have hhold : r.holding = true := by
      unfold slotFor at hf
      rw [hfull] at hf
      cases stop <;> cases hh : r.holding <;> simp [hh] at hf ⊢
    have hpos := hl.capacity_pos
    have hzero := h hhold
    simp only [isFull, decide_eq_true_eq] at hfull
    omega

theorem stop_of_stopped {stop : Bool} (h : r.slotFor stop = .stopped) : stop = true := by
  cases stop with
  | true => rfl
  | false => cases hf : r.isFull <;> cases hh : r.holding <;> simp [slotFor, hf, hh] at h

theorem commit_of_not_accepts (h : r.accepts = false) (pts : Float) (image : Image) :
    r.commit pts image = (r, image) := by
  rw [accepts, Bool.not_eq_false'] at h
  rw [commit, if_pos h]

theorem holding_commit (r : PictureRing) (pts : Float) (image : Image) :
    (r.commit pts image).1.holding = r.holding := by
  unfold commit
  split <;> rfl

end PictureRing

namespace RingUse

variable {u : RingUse} {moves : List RingMove} {notes : List RingNote}

theorem sound_start (capacity : Nat) : ({ ring := .new capacity } : RingUse).Sound [] [] :=
  ⟨PictureRing.laid_new capacity, rfl, fun h => absurd h (by simp [PictureRing.new]), fun h => (nomatch h), trivial,
    fun h => (nomatch h)⟩

theorem shut_concat (moves : List RingMove) (m : RingMove) :
    RingMove.shut (moves ++ [m]) = m.shuts (RingMove.shut moves) := List.foldl_append

theorem Sound.beside (h : u.Sound moves notes) (m : RingMove) :
    ({ u with ring := u.ring.beside m } : RingUse).Sound (moves ++ [m]) notes where
  laid := h.laid.beside m
  held := by rw [shut_concat, ← h.held, PictureRing.holding_beside]
  shutEmpty := PictureRing.size_beside_of_shut h.shutEmpty m
  room := fun hp => PictureRing.isFull_beside (h.room hp) m
  told := h.told
  stopped := fun hs => List.mem_append_left _ (h.stopped hs)

theorem Sound.goOn (h : u.Sound moves notes) : u.goOn.2.Sound (moves ++ [.goOn]) (notes ++ u.goOn.1) := by
  have held : u.ring.holding = RingMove.shut (moves ++ [.goOn]) := h.held.trans (shut_concat moves .goOn).symm
  have stopped : u.stop = true → .stop ∈ moves ++ [.goOn] := fun hs => List.mem_append_left _ (h.stopped hs)
  cases hp : u.point with
  | away =>
    simp only [RingUse.goOn, hp, List.append_nil]
    exact ⟨h.laid, held, h.shutEmpty, h.room, h.told, stopped⟩
  | place pts conversion =>
    have htold := h.told
    rw [hp] at htold
    cases hs : u.ring.slotFor u.stop with
    | free =>
      simp only [RingUse.goOn, hp, hs, List.append_nil]
      exact ⟨h.laid, held, h.shutEmpty, fun _ => PictureRing.isFull_of_free h.laid h.shutEmpty hs, htold, stopped⟩
    | wait =>
      simp only [RingUse.goOn, hp, hs, List.append_nil]
      exact ⟨h.laid, held, h.shutEmpty, h.room, h.told, stopped⟩
    | stopped =>
      simp only [RingUse.goOn, hp, hs]
      exact ⟨h.laid, held, h.shutEmpty, fun hc => (nomatch hc), trivial, stopped⟩
  | convert pts conversion =>
    have hroom : u.ring.isFull = false := h.room (by rw [hp]; rfl)
    have htold := h.told
    rw [hp] at htold
    cases hc : conversion u.spare with
    | mk result image =>
      cases result with
      | ok a =>
        simp only [RingUse.goOn, hp, hc]
        refine ⟨h.laid, held, h.shutEmpty, fun _ => hroom, ⟨conversion, u.spare, ?_, hc⟩, stopped⟩
        obtain ⟨before, rfl⟩ := htold
        exact ⟨before, by rw [List.append_assoc]; rfl⟩
      | error e =>
        simp only [RingUse.goOn, hp, hc]
        exact ⟨h.laid, held, h.shutEmpty, fun hc => (nomatch hc), trivial, stopped⟩
      | died =>
        simp only [RingUse.goOn, hp, hc]
        exact ⟨h.laid, held, h.shutEmpty, fun hc => (nomatch hc), trivial, stopped⟩
  | commit pts =>
    simp only [RingUse.goOn, hp]
    refine ⟨h.laid.commit pts u.spare, ?_, fun hh => ?_, fun hc => (nomatch hc), trivial, stopped⟩
    · rw [PictureRing.holding_commit]
      exact held
    · rw [PictureRing.holding_commit] at hh
      rw [PictureRing.commit_holding hh]
      exact h.shutEmpty hh

theorem Sound.move (h : u.Sound moves notes) (m : RingMove) :
    (u.move m).2.Sound (moves ++ [m]) (notes ++ (u.move m).1) := by
  have held {m : RingMove} (hm : m.shuts u.ring.holding = u.ring.holding) :
      u.ring.holding = RingMove.shut (moves ++ [m]) := by rw [shut_concat, ← h.held, hm]
  cases m with
  | call pts conversion =>
    have stopped : u.stop = true → .stop ∈ moves ++ [.call pts conversion] :=
      fun hs => List.mem_append_left _ (h.stopped hs)
    cases hp : u.point with
    | away =>
      simp only [RingUse.move, hp]
      exact ⟨h.laid, held rfl, h.shutEmpty, fun hc => (nomatch hc), List.suffix_append _ _, stopped⟩
    | place _ _ | convert _ _ | commit _ =>
      simp only [RingUse.move, hp, List.append_nil]
      exact ⟨h.laid, held rfl, h.shutEmpty, h.room, h.told, stopped⟩
  | goOn => exact h.goOn
  | stop =>
    simp only [RingUse.move, List.append_nil]
    exact ⟨h.laid, held rfl, h.shutEmpty, h.room, h.told, fun _ => List.mem_append_right _ List.mem_cons_self⟩
  | refresh _ _ | clear _ | reset _ | releaseImages =>
    simp only [RingUse.move, List.append_nil]
    exact h.beside _

theorem Sound.run (h : u.Sound moves notes) (more : List RingMove) :
    (u.run more).Sound (moves ++ more) (notes ++ u.history more) := by
  induction more generalizing u moves notes with
  | nil => rwa [List.append_nil, history, List.append_nil]
  | cons m more ih =>
    have hrest := ih (h.move m)
    rwa [List.append_assoc, List.append_assoc] at hrest

/-! ## How a call ends -/

/-- A call that hands in its picture has converted it, and it is behind the pictures that wait, unless the ring is
shut. -/
theorem Sound.returned_true (h : u.Sound moves notes) (ht : .returned (.ok true) ∈ u.goOn.1) :
    ∃ pts conversion handed image,
      [.called pts conversion, .converted handed image] <:+ notes ∧ conversion handed = (.ok (), image) ∧
      u.goOn.2.ring.pictures =
        if RingMove.shut moves then u.ring.pictures else u.ring.pictures ++ [⟨pts, image⟩] := by
  cases hp : u.point with
  | away => simp [RingUse.goOn, hp] at ht
  | place pts conversion =>
    simp only [RingUse.goOn, hp] at ht
    split at ht <;> simp at ht
  | convert pts conversion =>
    simp only [RingUse.goOn, hp] at ht
    split at ht <;> simp at ht
  | commit pts =>
    have htold := h.told
    rw [hp] at htold
    obtain ⟨conversion, handed, hnotes, hc⟩ := htold
    have hroom : u.ring.isFull = false := h.room (by rw [hp]; rfl)
    refine ⟨pts, conversion, handed, u.spare, hnotes, hc, ?_⟩
    simp only [RingUse.goOn, hp]
    rw [PictureRing.pictures_commit h.laid, hroom, Bool.or_false, h.held]

/-- A call that is stopped has done nothing but ask for a slot. -/
theorem Sound.returned_false (h : u.Sound moves notes) (hf : .returned (.ok false) ∈ u.goOn.1) :
    u.stop = true ∧ (∃ pts conversion, [.called pts conversion] <:+ notes) ∧ u.goOn.2.ring = u.ring ∧
      u.goOn.2.spare = u.spare := by
  cases hp : u.point with
  | away => simp [RingUse.goOn, hp] at hf
  | place pts conversion =>
    have htold := h.told
    rw [hp] at htold
    cases hs : u.ring.slotFor u.stop with
    | stopped =>
      simp only [RingUse.goOn, hp, hs]
      exact ⟨PictureRing.stop_of_stopped hs, ⟨pts, conversion, htold⟩, trivial, trivial⟩
    | free | wait => simp [RingUse.goOn, hp, hs] at hf
  | convert pts conversion =>
    simp only [RingUse.goOn, hp] at hf
    split at hf <;> simp at hf
  | commit pts =>
    simp only [RingUse.goOn, hp] at hf
    split at hf <;> simp at hf

theorem ring_goOn (h : ∀ p, .appended p ∉ u.goOn.1) : u.goOn.2.ring = u.ring := by
  cases hp : u.point with
  | away => simp [RingUse.goOn, hp]
  | place pts conversion =>
    simp only [RingUse.goOn, hp]
    split <;> rfl
  | convert pts conversion =>
    simp only [RingUse.goOn, hp]
    split <;> rfl
  | commit pts =>
    have hno : u.ring.accepts = false := by
      cases ha : u.ring.accepts with
      | false => rfl
      | true => exact absurd (by simp [RingUse.goOn, hp, ha]) (h ⟨pts, u.spare⟩)
    simp only [RingUse.goOn, hp]
    rw [PictureRing.commit_of_not_accepts hno]

end RingUse

/-- **With one producer no picture is lost.**  Whatever others do to a new ring while its producer hands in one picture
after the other, at any of the places where they can come in: the producer never finds the ring full when it commits,
so the call comes back with true; a call that comes back with true has its picture, as the conversion left it, behind
the pictures that wait, unless a clear has shut the ring and neither a reset nor another clear came since; a call that
comes back with false has only asked for a slot, and the stop flag was raised; and an action of the producer that does
not append a picture leaves the ring as it is. -/
theorem PictureRing.no_picture_lost (capacity : Nat) (moves : List RingMove) :
    let start : RingUse := { ring := new capacity }
    let u := start.run moves
    let notes := start.history moves
    let answer := u.goOn.1
    let after := u.goOn.2
    (∀ pts, u.point = .commit pts → u.ring.isFull = false ∧ .returned (.ok true) ∈ answer) ∧
    (.returned (.ok true) ∈ answer → ∃ pts conversion handed image,
      [.called pts conversion, .converted handed image] <:+ notes ∧ conversion handed = (.ok (), image) ∧
      after.ring.pictures =
        if RingMove.shut moves then u.ring.pictures else u.ring.pictures ++ [⟨pts, image⟩]) ∧
    (.returned (.ok false) ∈ answer →
      .stop ∈ moves ∧ (∃ pts conversion, [.called pts conversion] <:+ notes) ∧ after.ring = u.ring ∧
      after.spare = u.spare) ∧
    ((∀ p, .appended p ∉ answer) → after.ring = u.ring) := by
  intro start u notes answer after
  have sound : u.Sound moves notes := (RingUse.sound_start capacity).run moves
  refine ⟨fun pts hp => ⟨sound.room (by rw [hp]; rfl), ?_⟩, sound.returned_true, fun hf => ?_, RingUse.ring_goOn⟩
  · simp [answer, RingUse.goOn, hp]
  · obtain ⟨hs, hcalled, hring, hspare⟩ := sound.returned_false hf
    exact ⟨sound.stopped hs, hcalled, hring, hspare⟩

/-! ## A call from start to end -/

/-! ## The decode worker as a producer -/

variable {C K D : Type} [VideoCodec K]

def VideoCodec.conversion (k : K) : Conversion := fun image =>
  ((VideoCodec.convert k image).1, (VideoCodec.convert k image).2.1)

def Decoder.producerPoint (w : Decoder K) : ProducerPoint :=
  match w.point with
  | .place pts => .place pts (VideoCodec.conversion w.codec)
  | .convert pts => .convert pts (VideoCodec.conversion w.codec)
  | .commit pts => .commit pts
  | _ => .away

/-- The ring of a deck, with the decode worker as its producer. -/
def Decoder.ringUse (d : Deck) (w : Decoder K) : RingUse where
  ring := d.ring
  spare := w.spare
  stop := d.stop
  point := w.producerPoint

def Session.ringUse (s : Session C K D) : RingUse :=
  s.decoder.elim { ring := s.deck.ring, stop := s.deck.stop } (Decoder.ringUse s.deck)

theorem Decoder.ringUse_advance (d : Deck) (w : Decoder K) (f : FrameInfo) (hp : w.point = .receive) :
    ∃ moves, Decoder.ringUse d (w.advance f) = (Decoder.ringUse d w).run moves := by
  unfold advance
  dsimp only
  split
  · exact ⟨[], by simp [ringUse, hp, producerPoint, RingUse.run]⟩
  · exact ⟨[.call (w.timeOf f) (VideoCodec.conversion w.codec)], by
      simp [ringUse, hp, producerPoint, RingUse.run, RingUse.move]⟩

/-- Each action of the worker is one of the producer or of the others, or has nothing to do with the ring. -/
theorem Decoder.ringUse_step (d : Deck) (w : Decoder K) :
    ∃ moves, Decoder.ringUse (w.step d).1 (w.step d).2.1 = (Decoder.ringUse d w).run moves := by
  cases hp : w.point with
  | take =>
    refine ⟨[], ?_⟩
    simp only [step, hp]
    split <;> simp [ringUse, producerPoint, hp, RingUse.run]
  | flushCodec start =>
    refine ⟨[], ?_⟩
    simp only [step, hp]
    split <;> simp [ringUse, producerPoint, hp, RingUse.run]
  | send p =>
    refine ⟨[], ?_⟩
    simp only [step, hp]
    split <;> simp [ringUse, producerPoint, hp, RingUse.run]
  | gone how =>
    refine ⟨[], ?_⟩
    simp [step, ringUse, producerPoint, hp, RingUse.run]
  | resetRing start =>
    refine ⟨[.reset (w.stream.timeBase.seconds start)], ?_⟩
    simp [step, ringUse, producerPoint, hp, RingUse.run, RingUse.move, PictureRing.beside]
  | leaving how =>
    refine ⟨[.stop], ?_⟩
    simp [step, ringUse, producerPoint, hp, RingUse.run, RingUse.move]
  | receive =>
    rcases hr : VideoCodec.receive w.codec with ⟨result, k⟩
    cases result with
    | ok frame =>
      cases frame with
      | none => exact ⟨[], by simp [step, ringUse, producerPoint, hp, hr, RingUse.run]⟩
      | some f =>
        obtain ⟨moves, h⟩ := Decoder.ringUse_advance d { w with codec := k } f hp
        have hs : w.step d = (d, ({ w with codec := k } : Decoder K).advance f, none) := by simp only [step, hp, hr]
        have hu : Decoder.ringUse d { w with codec := k } = Decoder.ringUse d w := by
          simp [ringUse, producerPoint, hp]
        exact ⟨moves, by rw [hs, h, hu]⟩
    | error e => exact ⟨[], by simp [step, ringUse, producerPoint, hp, hr, RingUse.run]⟩
    | died => exact ⟨[], by simp [step, ringUse, producerPoint, hp, hr, RingUse.run]⟩
  | place pts =>
    refine ⟨[.goOn], ?_⟩
    cases hs : d.ring.slotFor d.stop <;>
      simp [step, ringUse, producerPoint, hp, hs, RingUse.run, RingUse.move, RingUse.goOn]
  | convert pts =>
    refine ⟨[.goOn], ?_⟩
    rcases hc : VideoCodec.convert w.codec w.spare with ⟨result, image, k⟩
    cases result <;>
      simp [step, ringUse, producerPoint, hp, hc, RingUse.run, RingUse.move, RingUse.goOn, VideoCodec.conversion]
  | commit pts =>
    refine ⟨[.goOn], ?_⟩
    simp [step, ringUse, producerPoint, hp, RingUse.run, RingUse.move, RingUse.goOn]

namespace Session

variable [Container C K]

theorem ringUse_demux (s : Session C K D) (now : Nat) :
    ∃ moves, (s.demux now).1.ringUse = s.ringUse.run moves := by
  have hring : ∃ moves, ∀ u : RingUse, u.ring = s.deck.ring →
      u.run moves = { u with ring := (s.demuxer.step now s.deck).1.ring } := by
    rcases s.demuxer.ring_step now s.deck with ⟨-, -, -, -, h⟩ | ⟨-, -, -, -, h⟩ | ⟨-, h⟩
    · exact ⟨[.clear true], fun u hu => by rw [h, ← hu]; rfl⟩
    · exact ⟨[.clear false], fun u hu => by rw [h, ← hu]; rfl⟩
    · exact ⟨[], fun u hu => by rw [h, ← hu]; rfl⟩
  have hstop : ∃ moves, ∀ u : RingUse, u.stop = s.deck.stop →
      u.run moves = { u with stop := (s.demuxer.step now s.deck).1.stop } := by
    rw [s.demuxer.stop_step]
    cases decide (s.demuxer.point.toGo = 1) with
    | true => exact ⟨[.stop], fun u hu => by rw [Bool.or_true]; rfl⟩
    | false => exact ⟨[], fun u hu => by rw [Bool.or_false, ← hu]; rfl⟩
  obtain ⟨ringMoves, hring⟩ := hring
  obtain ⟨stopMoves, hstop⟩ := hstop
  refine ⟨ringMoves ++ stopMoves, ?_⟩
  rw [RingUse.run_append]
  cases hd : s.decoder with
  | none =>
    rw [hring _ (by simp [ringUse, hd]), hstop _ (by simp [ringUse, hd])]
    simp [ringUse, demux, hd]
  | some w =>
    rw [hring _ (by simp [ringUse, hd, Decoder.ringUse]), hstop _ (by simp [ringUse, hd, Decoder.ringUse])]
    simp [ringUse, demux, hd, Decoder.ringUse, Decoder.producerPoint]

variable [AudioDecoder D]

theorem ringUse_move (s : Session C K D) (now : Nat) (m : Move) :
    ∃ moves, (s.move now m).ringUse = s.ringUse.run moves := by
  cases m with
  | demux => exact s.ringUse_demux now
  | decode =>
    cases hd : s.decoder with
    | none => exact ⟨[], by simp [move, decode, ringUse, hd, RingUse.run]⟩
    | some w =>
      obtain ⟨moves, h⟩ := w.ringUse_step s.deck
      exact ⟨moves, by simpa [move, decode, ringUse, hd] using h⟩
  | refresh master =>
    cases hp : s.deck.paused with
    | true => exact ⟨[], by simp [move, hp, RingUse.run]⟩
    | false =>
      refine ⟨[.refresh master s.deck.config.threshold], ?_⟩
      cases hd : s.decoder <;>
        simp [move, hp, refresh, withDeck, ringUse, hd, Decoder.ringUse, RingUse.run, RingUse.move,
          PictureRing.beside, Decoder.producerPoint]
  | beginClose =>
    refine ⟨[.stop], ?_⟩
    cases hd : s.decoder <;>
      simp [move, beginClose, ringUse, hd, Decoder.ringUse, RingUse.run, RingUse.move, Deck.flushQueues,
        Decoder.producerPoint]
  | takeAudio | requestSeek target | setPaused on =>
    refine ⟨[], ?_⟩
    cases hd : s.decoder <;> simp [move, takeAudio, setPaused, withDeck, Deck.requestSeek, ringUse, hd, Decoder.ringUse,
      RingUse.run, Decoder.producerPoint]

/-- **A session uses its ring as one producer and others do.** -/
theorem ringUse_run (s : Session C K D) (plan : List (Nat × Move)) :
    ∃ moves, (s.run plan).ringUse = s.ringUse.run moves := by
  induction plan generalizing s with
  | nil => exact ⟨[], rfl⟩
  | cons m plan ih =>
    obtain ⟨moves, h⟩ := s.ringUse_move m.1 m.2
    obtain ⟨rest, hrest⟩ := ih (s.move m.1 m.2)
    exact ⟨moves ++ rest, by rw [run_cons, hrest, h, RingUse.run_append]⟩

omit [Container C K] [AudioDecoder D] in
theorem ring_ringUse (s : Session C K D) : s.ringUse.ring = s.deck.ring := by
  unfold ringUse
  cases s.decoder <;> rfl

theorem sound_run (now : Nat) (config : Config) (container : C) (audio : Option (StreamInfo × D))
    (video : Option (StreamInfo × K)) (plan : List (Nat × Move)) :
    ∃ moves notes,
      ((Player.sessionOf now config container audio video : Session C K D).run plan).ringUse.Sound moves notes := by
  obtain ⟨moves, h⟩ := (Player.sessionOf now config container audio video : Session C K D).ringUse_run plan
  have start : (Player.sessionOf now config container audio video : Session C K D).ringUse =
      { ring := .new config.pictureCapacity } := by
    cases video <;> rfl
  rw [h, start]
  exact ⟨_, _, (RingUse.sound_start config.pictureCapacity).run moves⟩

end Session

end Playhead
