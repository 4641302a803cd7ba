import Playhead.Player
/-!
# BoundedLine — the picture ring, seen as a line of pictures

Behind its indices the ring is a line: pictures come in at the end while there is room, and leave at the front.
`BoundedLine` is that line, with no slots and no places; its operations say on a list what the critical sections of the
ring should do.  The ring is laid out as a line at every time, does the same to it and gives the same answers
(`PictureRing.act_line`), whoever comes and in whatever order (`PictureRing.ring_is_line`).
-/
namespace Playhead

/-- What a thread does to the ring in one critical section.  A commit may come from any producer, with any picture,
whatever the ring was when the producer asked for a slot. -/
inductive RingAct
  | slotFor (stop : Bool)
  | commit (pts : Float) (image : Image)
  | refresh (master : Option Float) (threshold : Float)
  | clear (hold : Bool)
  | reset (pts : Float)
  | releaseImages

inductive RingAnswer
  | slot (answer : SlotAnswer)
  /-- The time of the picture that was taken, and the picture that is displayed. -/
  | refreshed (pts : Option Float) (displayed : Option Picture)
  | done

/-- A picture that is taken is displayed, unless it has no pixels. -/
def RingAnswer.ofTaken (taken : Option Picture) : RingAnswer :=
  .refreshed (taken.map (·.pts)) (taken.filter (·.image.isAllocated))

def RingAnswer.displayed : RingAnswer → Option Picture
  | .refreshed _ displayed => displayed
  | _ => none

structure BoundedLine where
  capacity : Nat
  pictures : List Picture := []
  lastPts : Float := 0
  holding : Bool := false

namespace BoundedLine

def isFull (l : BoundedLine) : Bool := decide (l.capacity ≤ l.pictures.length)

def empty (l : BoundedLine) : BoundedLine := { l with pictures := [] }

/-- The pictures in front whose time has passed; never the last of the line. -/
def late (l : BoundedLine) (clock threshold : Float) : List Picture :=
  l.pictures.dropLast.takeWhile (fun p => p.pts + threshold ≤ clock)

def takeAt (l : BoundedLine) (skip : Nat) : Option Picture × BoundedLine :=
  (l.pictures[skip]?,
    { l with pictures := l.pictures.drop (skip + 1), lastPts := l.pictures[skip]?.elim l.lastPts (·.pts) })

def refresh (l : BoundedLine) (master : Option Float) (threshold : Float) : Option Picture × BoundedLine :=
  match l.pictures, master with
  | [], _ => (none, l)
  | _ :: _, none => l.takeAt 0
  | head :: _, some clock =>
    if clock + threshold < head.pts then (none, l) else l.takeAt (l.late clock threshold).length

def act (l : BoundedLine) : RingAct → RingAnswer × BoundedLine
  | .slotFor stop => (.slot (if stop then .stopped else if l.isFull && !l.holding then .wait else .free), l)
  | .commit pts image =>
    (.done, if l.holding || l.isFull then l else { l with pictures := l.pictures ++ [⟨pts, image⟩] })
  | .refresh master threshold => (.ofTaken (l.refresh master threshold).1, (l.refresh master threshold).2)
  | .clear hold => (.done, { l.empty with holding := hold })
  | .reset pts => (.done, { l.empty with lastPts := pts, holding := false })
  | .releaseImages => (.done, l.empty)

def run (l : BoundedLine) (acts : List RingAct) : BoundedLine := acts.foldl (fun l a => (l.act a).2) l

def answers (l : BoundedLine) : List RingAct → List RingAnswer
  | [] => []
  | a :: acts => (l.act a).1 :: (l.act a).2.answers acts

theorem capacity_act (l : BoundedLine) (a : RingAct) : (l.act a).2.capacity = l.capacity := by
  cases a with
  | commit pts image =>
    simp only [act]
    split <;> rfl
  | refresh master threshold =>
    simp only [act, refresh]
    split
    · rfl
    · rfl
    · split <;> rfl
  | _ => rfl

theorem capacity_run (l : BoundedLine) (acts : List RingAct) : (l.run acts).capacity = l.capacity := by
  induction acts generalizing l with
  | nil => rfl
  | cons a acts ih => exact (ih (l.act a).2).trans (l.capacity_act a)

end BoundedLine

namespace PictureRing

def act (r : PictureRing) : RingAct → RingAnswer × PictureRing
  | .slotFor stop => (.slot (r.slotFor stop), r)
  | .commit pts image => (.done, (r.commit pts image).1)
  | .refresh master threshold => (.ofTaken (r.refresh master threshold).1, (r.refresh master threshold).2)
  | .clear hold => (.done, r.clear hold)
  | .reset pts => (.done, r.reset pts)
  | .releaseImages => (.done, r.releaseImages)

def run (r : PictureRing) (acts : List RingAct) : PictureRing := acts.foldl (fun r a => (r.act a).2) r

def answers (r : PictureRing) : List RingAct → List RingAnswer
  | [] => []
  | a :: acts => (r.act a).1 :: (r.act a).2.answers acts

/-- The ring without its slots and places. -/
def line (r : PictureRing) : BoundedLine where
  capacity := r.capacity
  pictures := r.pictures
  lastPts := r.lastPts
  holding := r.holding

theorem isFull_line (r : PictureRing) : r.line.isFull = r.isFull := by
  simp [line, BoundedLine.isFull, isFull]

theorem Laid.releaseImages {r : PictureRing} (h : r.Laid) : r.releaseImages.Laid := by
  have hc : r.releaseImages.capacity = r.capacity := by simp [PictureRing.releaseImages, PictureRing.empty, capacity]
  refine ⟨?_, Nat.zero_le _, ?_, (Nat.zero_mod _).symm⟩
  · rw [hc]
    exact h.capacity_pos
  · rw [hc]
    exact h.capacity_pos

theorem Laid.slots_getElem? {r : PictureRing} (h : r.Laid) {k : Nat} (hk : k < r.size) :
    r.slots[(r.readAt + k) % r.capacity]? = r.pictures[k]? := by
  have hlt : (r.readAt + k) % r.capacity < r.slots.size := Nat.mod_lt _ h.capacity_pos
  have hlen : k < r.pictures.length := by rwa [length_pictures]
  rw [List.getElem?_eq_getElem hlen, getElem_pictures, Array.getElem?_eq_getElem hlt, slot, Array.getD,
    dif_pos hlt]
  rfl

/-! ## What a refresh skips -/

theorem lateFrom_eq (r : PictureRing) (clock threshold : Float) (most k : Nat) :
    r.lateFrom clock threshold most ((r.readAt + k) % r.capacity) =
      (((List.range' k most).map (fun j => r.slot ((r.readAt + j) % r.capacity))).takeWhile
        (fun p => p.pts + threshold ≤ clock)).length := by
  induction most generalizing k with
  | zero => rfl
  | succ most ih =>
    have hn : r.next ((r.readAt + k) % r.capacity) = (r.readAt + (k + 1)) % r.capacity := by
      rw [next, Nat.mod_add_mod, Nat.add_assoc]
    rw [List.range'_succ, List.map_cons, List.takeWhile_cons, lateFrom, hn, ih]
    by_cases hl : (r.slot ((r.readAt + k) % r.capacity)).pts + threshold ≤ clock
    · simp [hl]
    · simp [hl]

theorem dropLast_pictures (r : PictureRing) :
    r.pictures.dropLast = (List.range' 0 (r.size - 1)).map (fun j => r.slot ((r.readAt + j) % r.capacity)) := by
  rw [pictures, List.dropLast_eq_take, List.length_map, List.length_range, ← List.map_take, List.take_range,
    List.range_eq_range', Nat.min_eq_left (Nat.sub_le _ _)]

theorem lateFrom_readAt {r : PictureRing} (h : r.Laid) (clock threshold : Float) :
    r.lateFrom clock threshold (r.size - 1) r.readAt = (r.line.late clock threshold).length := by
  have hr : r.readAt = (r.readAt + 0) % r.capacity := by rw [Nat.add_zero, Nat.mod_eq_of_lt h.readAt_lt]
  rw [BoundedLine.late, line, dropLast_pictures, ← lateFrom_eq, ← hr]

theorem takeAt_line {r : PictureRing} {skip : Nat} (hs : skip < r.size) :
    (r.line.takeAt skip).1 = some (r.takeAt skip).1 ∧ (r.line.takeAt skip).2 = (r.takeAt skip).2.line := by
  have hlen : skip < r.pictures.length := by rwa [length_pictures]
  have hget : r.pictures[skip]? = some (r.takeAt skip).1 := by
    rw [List.getElem?_eq_getElem hlen, takeAt_fst hlen]
  have hline : r.line.pictures = r.pictures := rfl
  refine ⟨?_, ?_⟩
  · simp only [BoundedLine.takeAt, hline, hget]
  · simp only [BoundedLine.takeAt, hline, hget, Option.elim_some, ← pictures_takeAt]
    rfl

theorem refresh_line {r : PictureRing} (h : r.Laid) (master : Option Float) (threshold : Float) :
    (r.line.refresh master threshold).1 = (r.refresh master threshold).1 ∧
      (r.line.refresh master threshold).2 = (r.refresh master threshold).2.line := by
  have hline : r.line.pictures = r.pictures := rfl
  cases hp : r.pictures with
  | nil =>
    have he : r.isEmpty = true := by rw [isEmpty, ← r.length_pictures, hp]; rfl
    simp [refresh, he, BoundedLine.refresh, hline, hp]
  | cons head rest =>
    have hpos : 0 < r.size := by rw [← r.length_pictures, hp]; exact Nat.succ_pos _
    have he : r.isEmpty = false := by rw [isEmpty, beq_eq_false_iff_ne]; omega
    cases master with
    | none =>
      simp only [refresh, he, BoundedLine.refresh, hline, hp]
      exact takeAt_line hpos
    | some clock =>
      have hhead : r.slot r.readAt = head := slot_readAt h (by rw [hp]; rfl)
      simp only [refresh, he, BoundedLine.refresh, hline, hp, hhead]
      by_cases hearly : clock + threshold < head.pts
      · simp [hearly]
      · simp only [hearly, if_false]
        rw [← lateFrom_readAt h]
        have hle := r.lateFrom_le clock threshold (r.size - 1) r.readAt
        exact takeAt_line (by omega)

/-! ## What the ring does to its line -/

theorem Laid.act {r : PictureRing} (h : r.Laid) (a : RingAct) : (r.act a).2.Laid := by
  cases a with
  | slotFor stop => exact h
  | commit pts image => exact h.commit pts image
  | refresh master threshold => exact (r.refresh_keeps master threshold).2.2.2 h
  | clear hold => exact h.clear hold
  | reset pts => exact h.reset pts
  | releaseImages => exact h.releaseImages

/-- **Each critical section does to the line what it should, and gives the answer that it should.** -/
theorem act_line {r : PictureRing} (h : r.Laid) (a : RingAct) :
    (r.act a).1 = (r.line.act a).1 ∧ (r.act a).2.line = (r.line.act a).2 := by
  cases a with
  | slotFor stop =>
    refine ⟨?_, rfl⟩
    simp only [act, BoundedLine.act, isFull_line]
    rfl
  | commit pts image =>
    refine ⟨rfl, ?_⟩
    have hp := pictures_commit h pts image
    simp only [act, BoundedLine.act, isFull_line]
    change _ = if r.holding || r.isFull then r.line else _
    split
    · next hc =>
      rw [commit, if_pos hc]
    · next hc =>
      rw [if_neg hc] at hp
      have hl : (r.commit pts image).1.line =
          { r.line with pictures := (r.commit pts image).1.pictures } := by
        rw [commit, if_neg hc]
        simp [line, capacity]
      rw [hl, hp]
      rfl
  | refresh master threshold =>
    obtain ⟨ht, hl⟩ := refresh_line h master threshold
    exact ⟨congrArg RingAnswer.ofTaken ht.symm, hl.symm⟩
  | clear hold => exact ⟨rfl, rfl⟩
  | reset pts => exact ⟨rfl, rfl⟩
  | releaseImages =>
    refine ⟨rfl, ?_⟩
    simp only [act, BoundedLine.act, BoundedLine.empty, line, releaseImages, empty, pictures, capacity,
      Array.size_map]
    rfl

theorem run_line {r : PictureRing} (h : r.Laid) (acts : List RingAct) :
    (r.run acts).Laid ∧ (r.run acts).line = r.line.run acts ∧ r.answers acts = r.line.answers acts := by
  induction acts generalizing r with
  | nil => exact ⟨h, rfl, rfl⟩
  | cons a acts ih =>
    obtain ⟨ha, hl⟩ := act_line h a
    obtain ⟨hlaid, hrun, hans⟩ := ih (h.act a)
    refine ⟨hlaid, ?_, ?_⟩
    · rw [hl] at hrun
      exact hrun
    · rw [hl] at hans
      rw [answers, BoundedLine.answers, ha, hans]

end PictureRing

variable {C K D : Type} [AudioDecoder D]

/-- What an update shows is what the ring has displayed, and the session goes on with the ring behind that. -/
theorem Player.update_displays {p : Player C K D} {s : Session C K D} (hs : p.session = some s)
    (hsink : p.host.hasSink = true) (hpaused : s.deck.paused = false) (now : Nat) :
    let acted := s.deck.ring.act (.refresh (s.masterReading now) s.deck.config.threshold)
    (p.update now).1.picture = acted.1.displayed ∧
      (p.update now).2.session.map (·.deck.ring) = some acted.2 := by
  simp only [Player.update, hs, hpaused, hsink, Bool.true_and]
  exact ⟨rfl, rfl⟩

/-- **The ring is a bounded line of pictures.**  Whatever threads do to a new ring, one critical section after the
other: the pictures that wait lie one behind the other from the read place on, as many as there are and no more than
there are slots, and the write place is where they end; they are the pictures of the line to which the same was done;
and every thread got the answer that the line would have given it, the picture that was displayed included.  An update
of a player that shows pictures displays just this picture. -/
theorem PictureRing.ring_is_line (capacity : Nat) (acts : List RingAct) :
    let r := (new capacity).run acts
    let l : BoundedLine := { capacity := max capacity 1 }
    (r.pictures.length = r.size ∧ r.size ≤ r.capacity ∧ r.capacity = max capacity 1 ∧
      r.writeAt = (r.readAt + r.size) % r.capacity ∧
      ∀ k < r.size, r.slots[(r.readAt + k) % r.capacity]? = r.pictures[k]?) ∧
    r.line = l.run acts ∧ (new capacity).answers acts = l.answers acts ∧
    ∀ (p : Player C K D) (s : Session C K D) (now : Nat), p.session = some s → s.deck.ring = r →
      p.host.hasSink = true → s.deck.paused = false →
      let acted := (l.run acts).act (.refresh (s.masterReading now) s.deck.config.threshold)
      (p.update now).1.picture = acted.1.displayed ∧
        (p.update now).2.session.map (·.deck.ring.line) = some acted.2 := by
  intro r l
  have start : (new capacity).line = l := by
    rw [line, capacity_new]
    rfl
  obtain ⟨laid, hline, hanswers⟩ := run_line (laid_new capacity) acts
  rw [start] at hline hanswers
  have hcap : r.capacity = max capacity 1 := (congrArg BoundedLine.capacity hline).trans (l.capacity_run acts)
  refine ⟨⟨r.length_pictures, laid.size_le, hcap, laid.writeAt_eq, fun k hk => laid.slots_getElem? hk⟩, hline,
    hanswers, ?_⟩
  intro p s now hs hring hsink hpaused acted
  obtain ⟨hpicture, hsession⟩ := Player.update_displays hs hsink hpaused now
  obtain ⟨hanswer, hafter⟩ := act_line laid (.refresh (s.masterReading now) s.deck.config.threshold)
  rw [hring] at hpicture hsession
  rw [hline] at hanswer hafter
  refine ⟨hpicture.trans (congrArg RingAnswer.displayed hanswer), ?_⟩
  obtain ⟨s', hs', hr'⟩ := Option.map_eq_some_iff.1 hsession
  rw [hs', Option.map_some, hr', hafter]

end Playhead
