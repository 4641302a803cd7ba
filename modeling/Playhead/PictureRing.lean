import Playhead.Image
/-!
# PictureRing — decoded pictures that wait to be shown

A ring of a fixed number of slots.  Each function is one critical section of the ring's lock.  A producer asks for a
slot (`slotFor`), converts its picture outside the lock into a buffer of its own, and hands the picture in (`commit`),
where its buffer changes places with the slot's.  `refresh` takes the picture that is due.

`PictureRing.pictures` is the ring as a list, oldest picture first: a commit goes behind it (`pictures_commit`), a
picture is taken out of it together with those before it (`pictures_takeAt`), and so a refresh takes pictures from its
front (`outgoing_append`).
-/
namespace Playhead

structure Picture where
  pts : Float := 0
  image : Image := {}
deriving Inhabited

structure PictureRing where
  slots : Array Picture
  readAt : Nat := 0
  writeAt : Nat := 0
  size : Nat := 0
  /-- The time of the picture that was taken last: where the medium stands. -/
  lastPts : Float := 0
  /-- The ring was cleared by a seek and takes no picture until it is reset. -/
  holding : Bool := false
deriving Inhabited

inductive SlotAnswer
  | free | wait | stopped
deriving DecidableEq, Repr, Inhabited

namespace PictureRing

/-- An empty ring; a capacity of zero is taken as one. -/
def new (capacity : Nat) : PictureRing := { slots := Array.replicate (max capacity 1) {} }

def capacity (r : PictureRing) : Nat := r.slots.size

def isEmpty (r : PictureRing) : Bool := r.size == 0

def isFull (r : PictureRing) : Bool := decide (r.capacity ≤ r.size)

def next (r : PictureRing) (i : Nat) : Nat := (i + 1) % r.capacity

def slot (r : PictureRing) (i : Nat) : Picture := r.slots.getD i {}

def pictures (r : PictureRing) : List Picture :=
  (List.range r.size).map (fun k => r.slot ((r.readAt + k) % r.capacity))

def empty (r : PictureRing) : PictureRing := { r with size := 0, readAt := 0, writeAt := 0 }

/-- A seek drops what waits.  With `hold` it also shuts the ring, until the decoder has reached the new timeline. -/
def clear (r : PictureRing) (hold : Bool) : PictureRing := { r.empty with holding := hold }

def reset (r : PictureRing) (pts : Float) : PictureRing := { r.empty with lastPts := pts, holding := false }

/-- A producer waits for a slot while the ring is full; a ring that holds does not make it wait, since it will not take
the picture anyway. -/
def slotFor (r : PictureRing) (stop : Bool) : SlotAnswer :=
  if stop then .stopped
  else if r.isFull && !r.holding then .wait
  else .free

/-- Hands in a converted picture.  The producer goes on with the buffer that was in the slot.  A ring that holds or is
full leaves the picture with the producer. -/
def commit (r : PictureRing) (pts : Float) (image : Image) : PictureRing × Image :=
  if r.holding || r.isFull then (r, image)
  else
    let buffer := (r.slot r.writeAt).image
    let writeAt := r.next r.writeAt
    ({ r with slots := r.slots.setIfInBounds r.writeAt ⟨pts, image⟩, writeAt, size := r.size + 1 }, buffer)

/-- How many of at most `most` pictures from index `i` on are late: their time and the threshold have passed. -/
def lateFrom (r : PictureRing) (clock threshold : Float) : (most : Nat) → (i : Nat) → Nat
  | 0, _ => 0
  | most + 1, i =>
    if (r.slot i).pts + threshold ≤ clock then r.lateFrom clock threshold most (r.next i) + 1 else 0

/-- Takes the picture `skip` places behind the oldest one, and drops those before it. -/
def takeAt (r : PictureRing) (skip : Nat) : Picture × PictureRing :=
  let i := (r.readAt + skip) % r.capacity
  let p := r.slot i
  (p, { r with lastPts := p.pts, size := r.size - (skip + 1), readAt := r.next i })

/-- Takes the picture that is due.  Without a clock to follow that is the oldest.  With one, a picture that lies more
than the threshold ahead is waited for, and late pictures are dropped as long as another one follows. -/
def refresh (r : PictureRing) (master : Option Float) (threshold : Float) : Option Picture × PictureRing :=
  if r.isEmpty then (none, r)
  else match master with
    | none => let (p, r) := r.takeAt 0; (some p, r)
    | some clock =>
      if clock + threshold < (r.slot r.readAt).pts then (none, r)
      else let (p, r) := r.takeAt (r.lateFrom clock threshold (r.size - 1) r.readAt); (some p, r)

def releaseImages (r : PictureRing) : PictureRing :=
  { r.empty with slots := r.slots.map (fun p => { p with image := {} }) }

/-! ## A producer from start to end -/

/-- The ring that a producer finds when it has its answer, if others do this to the ring while it waits. -/
def afterWait (r : PictureRing) (stop : Bool) (others : PictureRing → PictureRing) : PictureRing :=
  if r.slotFor stop = .wait then others r else r

/-- Hands in a picture from start to end: the slot, the conversion into the producer's buffer, the commit.  `meanwhile`
is what others do to the ring during the conversion.  Without a slot nothing happens; after a conversion that failed
nothing is committed. -/
def handIn {ε σ : Type} (r : PictureRing) (stop : Bool) (pts : Float) (buffer : Image)
    (convert : Image → Except ε Unit × Image) (meanwhile : PictureRing → PictureRing × σ) :
    Option (Except ε Unit × Image × PictureRing × σ) :=
  if r.slotFor stop = .free then
    let (result, image) := convert buffer
    let (r, a) := meanwhile r
    match result with
    | .error e => some (.error e, image, r, a)
    | .ok () => let (r, image) := r.commit pts image; some (.ok (), image, r, a)
  else none

/-- The layout: the slots are there, the write place is where the pictures end. -/
structure Laid (r : PictureRing) : Prop where
  capacity_pos : 0 < r.capacity
  size_le : r.size ≤ r.capacity
  readAt_lt : r.readAt < r.capacity
  writeAt_eq : r.writeAt = (r.readAt + r.size) % r.capacity

theorem capacity_new (capacity : Nat) : (new capacity).capacity = max capacity 1 := by
  simp [new, PictureRing.capacity]

theorem laid_new (capacity : Nat) : (new capacity).Laid := by
  have hpos : 0 < (new capacity).capacity := by rw [capacity_new]; omega
  exact ⟨hpos, Nat.zero_le _, hpos, (Nat.zero_mod _).symm⟩

theorem Laid.empty {r : PictureRing} (h : r.Laid) : r.empty.Laid :=
  ⟨h.capacity_pos, Nat.zero_le _, h.capacity_pos, by simp [PictureRing.empty]⟩

theorem Laid.clear {r : PictureRing} (h : r.Laid) (hold : Bool) : (r.clear hold).Laid :=
  ⟨h.empty.capacity_pos, h.empty.size_le, h.empty.readAt_lt, h.empty.writeAt_eq⟩

theorem Laid.reset {r : PictureRing} (h : r.Laid) (pts : Float) : (r.reset pts).Laid :=
  ⟨h.empty.capacity_pos, h.empty.size_le, h.empty.readAt_lt, h.empty.writeAt_eq⟩

theorem Laid.commit {r : PictureRing} (h : r.Laid) (pts : Float) (image : Image) : (r.commit pts image).1.Laid := by
  unfold PictureRing.commit
  split
  · exact h
  · next hc =>
    have hlt : r.size < r.capacity := by
      simp only [Bool.or_eq_true, not_or, isFull, decide_eq_true_eq] at hc
      omega
    refine ⟨?_, ?_, ?_, ?_⟩
    · simpa [PictureRing.capacity] using h.capacity_pos
    · simpa [PictureRing.capacity] using Nat.succ_le_of_lt hlt
    · simpa [PictureRing.capacity] using h.readAt_lt
    · have hw := h.writeAt_eq
      simp only [PictureRing.capacity, next, Array.size_setIfInBounds] at *
      rw [hw, Nat.mod_add_mod, Nat.add_assoc]

/-! ## The ring as a list -/

@[simp] theorem length_pictures (r : PictureRing) : r.pictures.length = r.size := by simp [pictures]

@[simp] theorem pictures_empty (r : PictureRing) : r.empty.pictures = [] := rfl

@[simp] theorem pictures_clear (r : PictureRing) (hold : Bool) : (r.clear hold).pictures = [] := rfl

@[simp] theorem pictures_reset (r : PictureRing) (pts : Float) : (r.reset pts).pictures = [] := rfl

theorem getElem_pictures (r : PictureRing) (k : Nat) (hk : k < r.pictures.length) :
    r.pictures[k] = r.slot ((r.readAt + k) % r.capacity) := by
  simp [pictures]

theorem place_ne {c a i j : Nat} (hij : i < j) (hj : j < c + i) : (a + i) % c ≠ (a + j) % c := by
  intro h
  have h1 := Nat.div_add_mod (a + i) c
  have h2 := Nat.div_add_mod (a + j) c
  rw [← h] at h2
  have hlt : c * ((a + i) / c) < c * ((a + j) / c) := by omega
  have hq : (a + i) / c + 1 ≤ (a + j) / c := Nat.lt_of_mul_lt_mul_left hlt
  have hc := Nat.mul_le_mul_left c hq
  rw [Nat.mul_add] at hc
  omega

/-- **What is committed goes behind the pictures that wait.** -/
theorem pictures_commit {r : PictureRing} (h : r.Laid) (pts : Float) (image : Image) :
    (r.commit pts image).1.pictures =
      if r.holding || r.isFull then r.pictures else r.pictures ++ [⟨pts, image⟩] := by
  unfold commit
  split
  · rfl
  · next hc =>
    have hlt : r.size < r.capacity := by
      simp only [Bool.or_eq_true, not_or, isFull, decide_eq_true_eq] at hc
      omega
    have hw := h.writeAt_eq
    have hwlt : r.writeAt < r.slots.size := by rw [hw]; exact Nat.mod_lt _ h.capacity_pos
    simp only [pictures, capacity, Array.size_setIfInBounds, List.range_succ, List.map_append, List.map_cons,
      List.map_nil]
    congr 1
    · refine List.map_congr_left (fun k hk => ?_)
      have hk := List.mem_range.1 hk
      have hne : r.writeAt ≠ (r.readAt + k) % r.slots.size := by
        rw [hw]
        exact (place_ne hk (Nat.lt_of_lt_of_le hlt (Nat.le_add_right _ _))).symm
      simp only [slot, Array.getD_eq_getD_getElem?]
      rw [Array.getElem?_setIfInBounds_ne hne]
    · simp only [slot, Array.getD_eq_getD_getElem?]
      change r.writeAt = (r.readAt + r.size) % r.slots.size at hw
      rw [← hw, Array.getElem?_setIfInBounds_self_of_lt hwlt]
      rfl

theorem Laid.takeAt {r : PictureRing} (h : r.Laid) {skip : Nat} (hs : skip < r.size) : (r.takeAt skip).2.Laid := by
  have hle := h.size_le
  refine ⟨h.capacity_pos, Nat.le_trans (Nat.sub_le _ _) h.size_le, Nat.mod_lt _ h.capacity_pos, ?_⟩
  have hw := h.writeAt_eq
  simp only [PictureRing.takeAt, PictureRing.capacity, next] at *
  rw [hw, Nat.mod_add_mod, Nat.add_assoc, Nat.mod_add_mod]
  congr 1
  omega

/-- **What is taken is the picture at that place, and what waits on is what lies behind it.** -/
theorem takeAt_fst {r : PictureRing} {skip : Nat} (hs : skip < r.pictures.length) :
    (r.takeAt skip).1 = r.pictures[skip] := by
  rw [getElem_pictures]
  rfl

theorem pictures_takeAt (r : PictureRing) (skip : Nat) :
    (r.takeAt skip).2.pictures = r.pictures.drop (skip + 1) := by
  refine List.ext_getElem (by simp [PictureRing.takeAt]) (fun k h1 h2 => ?_)
  rw [getElem_pictures, List.getElem_drop, getElem_pictures]
  simp only [PictureRing.takeAt, next, slot, capacity]
  congr 1
  rw [Nat.mod_add_mod, Nat.add_assoc, Nat.mod_add_mod]
  congr 1
  omega

theorem commit_holding {r : PictureRing} (h : r.holding = true) (pts : Float) (image : Image) :
    (r.commit pts image).1 = r := by
  unfold commit
  rw [h]
  rfl

theorem buffers_commit {r : PictureRing} {P : Image → Prop} (hs : ∀ i, P (r.slot i).image) {image : Image}
    (hi : P image) (pts : Float) :
    P (r.commit pts image).2 ∧ ∀ i, P ((r.commit pts image).1.slot i).image := by
  unfold commit
  split
  · exact ⟨hi, hs⟩
  · refine ⟨hs r.writeAt, fun i => ?_⟩
    have hslot := hs i
    simp only [slot, Array.getD_eq_getD_getElem?, Array.getElem?_setIfInBounds] at hslot ⊢
    split
    · split
      · exact hi
      · next hw hlt =>
        have hnone : r.slots[i]? = none := Array.getElem?_eq_none (by omega)
        rwa [hnone] at hslot
    · exact hslot

/-! ## What a refresh takes -/

/-- The pictures that leave the ring when the driver shows what is due, oldest first: those that are too late, and
behind them the one that is shown. -/
def outgoing (r : PictureRing) (master : Option Float) (threshold : Float) : List Picture :=
  r.pictures.take (r.size - (r.refresh master threshold).2.size)

theorem lateFrom_le (r : PictureRing) (clock threshold : Float) (most i : Nat) :
    r.lateFrom clock threshold most i ≤ most := by
  induction most generalizing i with
  | zero => exact Nat.le_refl _
  | succ most ih =>
    unfold lateFrom
    split
    · exact Nat.succ_le_succ (ih _)
    · exact Nat.zero_le _

theorem refresh_cases (r : PictureRing) (master : Option Float) (threshold : Float) :
    r.refresh master threshold = (none, r) ∨
      ∃ skip < r.size, r.refresh master threshold = (some (r.takeAt skip).1, (r.takeAt skip).2) := by
  unfold refresh
  split
  · exact .inl rfl
  · next he =>
    have hpos : 0 < r.size := by simp only [isEmpty, beq_iff_eq] at he; omega
    split
    · exact .inr ⟨0, hpos, rfl⟩
    · next clock =>
      split
      · exact .inl rfl
      · have hle := r.lateFrom_le clock threshold (r.size - 1) r.readAt
        exact .inr ⟨_, by omega, rfl⟩

theorem slot_readAt {r : PictureRing} (h : r.Laid) {head : Picture} (hh : r.pictures.head? = some head) :
    r.slot r.readAt = head := by
  obtain ⟨hpos, hg⟩ := List.getElem?_eq_some_iff.1 (List.head?_eq_getElem?.symm.trans hh)
  rw [getElem_pictures, Nat.add_zero, Nat.mod_eq_of_lt h.readAt_lt] at hg
  exact hg

/-- **A refresh takes pictures from the front, and leaves the others as they are.** -/
theorem outgoing_append (r : PictureRing) (master : Option Float) (threshold : Float) :
    r.outgoing master threshold ++ (r.refresh master threshold).2.pictures = r.pictures := by
  unfold outgoing
  rcases r.refresh_cases master threshold with h | ⟨skip, hs, h⟩
  · rw [h, Nat.sub_self]
    rfl
  · have hn : r.size - (r.takeAt skip).2.size = skip + 1 := by
      simp only [takeAt]
      omega
    rw [h, pictures_takeAt, hn]
    exact List.take_append_drop _ _

/-- What leaves begins with the oldest picture, unless that one is early. -/
theorem head?_outgoing {r : PictureRing} (h : r.Laid) {head : Picture} (hh : r.pictures.head? = some head)
    (master : Option Float) (threshold : Float) :
    (r.outgoing master threshold).head? =
      if master.any (fun clock => clock + threshold < head.pts) then none else some head := by
  have hpos : 0 < r.size := by
    rw [← length_pictures]
    exact (List.getElem?_eq_some_iff.1 (List.head?_eq_getElem?.symm.trans hh)).1
  have he : r.isEmpty = false := by rw [isEmpty, beq_eq_false_iff_ne]; omega
  have hhead := slot_readAt h hh
  have taken {skip : Nat} (hs : skip < r.size) (hr : (r.refresh master threshold).2 = (r.takeAt skip).2) :
      (r.outgoing master threshold).head? = some head := by
    have hn : r.size - (r.takeAt skip).2.size = skip + 1 := by
      simp only [takeAt]
      omega
    rw [outgoing, hr, hn, List.head?_take, if_neg (Nat.succ_ne_zero skip), hh]
  cases master with
  | none => exact taken hpos (by simp [refresh, he])
  | some clock =>
    by_cases early : clock + threshold < head.pts
    · have stays : (r.refresh (some clock) threshold).2 = r := by simp [refresh, he, hhead, early]
      rw [outgoing, stays, Nat.sub_self]
      simp [early]
    · have hle := r.lateFrom_le clock threshold (r.size - 1) r.readAt
      have takes : (r.refresh (some clock) threshold).2 =
          (r.takeAt (r.lateFrom clock threshold (r.size - 1) r.readAt)).2 := by simp [refresh, he, hhead, early]
      rw [taken (by omega) takes]
      simp [early]

/-- The last picture that leaves is the one that is shown. -/
theorem refresh_fst (r : PictureRing) (master : Option Float) (threshold : Float) :
    (r.refresh master threshold).1 = (r.outgoing master threshold).getLast? := by
  unfold outgoing
  rcases r.refresh_cases master threshold with h | ⟨skip, hs, h⟩
  · rw [h, Nat.sub_self]
    rfl
  · have hlen : skip < r.pictures.length := by rw [length_pictures]; exact hs
    have hn : r.size - (r.takeAt skip).2.size = skip + 1 := by
      simp only [takeAt]
      omega
    rw [h, hn, List.take_succ_eq_append_getElem hlen, List.getLast?_concat, takeAt_fst hlen]

theorem refresh_keeps (r : PictureRing) (master : Option Float) (threshold : Float) :
    (r.refresh master threshold).2.slots = r.slots ∧ (r.refresh master threshold).2.holding = r.holding ∧
      (r.isFull = false → (r.refresh master threshold).2.isFull = false) ∧
      (r.Laid → (r.refresh master threshold).2.Laid) := by
  rcases r.refresh_cases master threshold with h | ⟨skip, hs, h⟩
  · rw [h]
    exact ⟨rfl, rfl, id, id⟩
  · rw [h]
    refine ⟨rfl, rfl, fun hf => ?_, fun hl => hl.takeAt hs⟩
    simp only [isFull, decide_eq_false_iff_not, Nat.not_le] at hf ⊢
    exact Nat.lt_of_le_of_lt (Nat.sub_le _ _) hf

theorem isEmpty_refresh {r : PictureRing} (h : r.isEmpty = true) (master : Option Float)
    (threshold : Float) : (r.refresh master threshold).2.isEmpty = true := by
  rcases r.refresh_cases master threshold with hr | ⟨skip, hs, -⟩
  · rw [hr]
    exact h
  · rw [isEmpty, beq_iff_eq] at h
    omega

end PictureRing
end Playhead
