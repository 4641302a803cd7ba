import Playhead.Proofs.OneProducer
/-!
# BufferRotation — the buffers of a ring and of its producer

A picture that is committed changes places with the buffer in its slot, so a ring of `n` slots and its producer have
`n + 1` buffers between them for ever.  `RingUse.bufferAct` is all that a move does to them: a conversion paints the
producer's, an accepted commit changes it for the one at the write place.  A `Rotation` gives every buffer a name and
follows it by these acts alone (`RingUse.buffers_run`).  A clear and a reset put the places back to the start and leave
the buffers where they are, so nothing can be said about the order in which the buffers come back; but no act makes an
empty buffer of a painted one (`Buffers.blank_act`), and that bounds how often a conversion is handed an empty one.
-/
namespace Playhead

/-- What can become of a buffer that is given dimensions and painted over, as often as one likes. -/
inductive Image.Repainted (image : Image) : Image → Prop
  | refl : Repainted image image
  | resize {painted : Image} (h : Repainted image painted) (width height : Nat) :
      Repainted image (painted.resize width height)
  | write {painted : Image} (h : Repainted image painted) (data : ByteArray) (hs : data.size = painted.data.size) :
      Repainted image { painted with data }

theorem Image.Repainted.whole {image painted : Image} (h : image.Repainted painted) (hw : image.Whole) :
    painted.Whole := by
  induction h with
  | refl => exact hw
  | resize _ width height ih => exact whole_resize ih width height
  | write _ data hs ih => exact hs.trans ih

/-- What the producer has, and what is in the slots. -/
structure Buffers (α : Type) where
  spare : α
  slots : List α

inductive BufferAct
  | keep
  | paint (image : Image)
  | swap (place : Nat)

namespace Buffers

variable {α β : Type}

def all (b : Buffers α) : List α := b.spare :: b.slots

def map (f : α → β) (b : Buffers α) : Buffers β := ⟨f b.spare, b.slots.map f⟩

def swap (b : Buffers α) (place : Nat) : Buffers α := ⟨b.slots.getD place b.spare, b.slots.set place b.spare⟩

def act (b : Buffers Image) : BufferAct → Buffers Image
  | .keep => b
  | .paint image => { b with spare := image }
  | .swap place => b.swap place

theorem map_swap (f : α → β) (b : Buffers α) (place : Nat) : (b.swap place).map f = (b.map f).swap place := by
  simp [swap, map, List.map_set, List.getD_eq_getElem?_getD, Option.getD_map]

theorem perm_swap (b : Buffers α) (place : Nat) : (b.swap place).all.Perm b.all := by
  obtain ⟨a, l⟩ := b
  change (l.getD place a :: l.set place a).Perm (a :: l)
  induction l generalizing place with
  | nil => exact .refl _
  | cons x l ih =>
    cases place with
    | zero => exact .swap a x l
    | succ i => exact (List.Perm.swap x (l.getD i a) _).trans (((ih i).cons x).trans (.swap a x l))

def blank (b : Buffers Image) : Nat := b.all.countP (fun image => !image.isAllocated)

/-- The conversion that an act stands for: the buffer as it was handed over, and as it was left. -/
def conversions (b : Buffers Image) : BufferAct → List (Image × Image)
  | .paint image => [(b.spare, image)]
  | _ => []

/-- **Each empty buffer that is painted is one less**, and there is never one more. -/
theorem blank_act (b : Buffers Image) (a : BufferAct) (ha : ∀ c ∈ b.conversions a, c.2.isAllocated = true) :
    (b.conversions a).countP (fun c => !c.1.isAllocated) + (b.act a).blank = b.blank := by
  cases a with
  | keep => exact Nat.zero_add _
  | paint image =>
    have hi : image.isAllocated = true := ha (b.spare, image) List.mem_cons_self
    simp [conversions, blank, act, all, List.countP_cons, hi, Nat.add_comm]
  | swap place => exact (Nat.zero_add _).trans ((b.perm_swap place).countP_eq _)

end Buffers

/-- Which buffer is where, and what they hold. -/
structure Rotation where
  names : Buffers Nat
  content : Nat → Image

namespace Rotation

/-- A buffer goes by the number of its place at the start, the producer's first. -/
def start (n : Nat) : Rotation where
  names := ⟨0, List.range' 1 n⟩
  content := fun _ => {}

/-- Painting changes what is in a buffer, swapping where two buffers are. -/
def act (b : Rotation) : BufferAct → Rotation
  | .keep => b
  | .paint image => { b with content := fun k => if k = b.names.spare then image else b.content k }
  | .swap place => { b with names := b.names.swap place }

def buffers (b : Rotation) : Buffers Image := b.names.map b.content

theorem perm_act (b : Rotation) (a : BufferAct) : (b.act a).names.all.Perm b.names.all := by
  cases a with
  | keep | paint image => exact .refl _
  | swap place => exact b.names.perm_swap place

theorem buffers_act {b : Rotation} (h : b.names.all.Nodup) (a : BufferAct) :
    (b.act a).buffers = b.buffers.act a := by
  cases a with
  | keep => rfl
  | swap place => exact b.names.map_swap b.content place
  | paint image =>
    have hne : ∀ k ∈ b.names.slots, k ≠ b.names.spare := fun k hk he => (List.nodup_cons.1 h).1 (he ▸ hk)
    have hslots : b.names.slots.map (fun k => if k = b.names.spare then image else b.content k) =
        b.names.slots.map b.content := List.map_congr_left (fun k hk => if_neg (hne k hk))
    simp [buffers, act, Buffers.map, Buffers.act, hslots]

end Rotation

namespace PictureRing

def images (r : PictureRing) : List Image := r.slots.toList.map (·.image)

theorem images_beside (r : PictureRing) {m : RingMove} (hm : m ≠ .releaseImages) :
    (r.beside m).images = r.images := by
  cases m with
  | refresh master threshold => rw [images, beside, (r.refresh_keeps master threshold).1, images]
  | releaseImages => exact absurd rfl hm
  | _ => rfl

theorem commit_of_accepts {r : PictureRing} (hl : r.Laid) (h : r.accepts = true) (pts : Float) (image : Image) :
    (r.commit pts image).2 = r.images.getD r.writeAt image ∧
      (r.commit pts image).1.images = r.images.set r.writeAt image := by
  rw [accepts, Bool.not_eq_true'] at h
  have hlt : r.writeAt < r.slots.size := by
    rw [hl.writeAt_eq]
    exact Nat.mod_lt _ hl.capacity_pos
  rw [commit, if_neg (by simp [h])]
  refine ⟨?_, ?_⟩
  · simp [slot, images, hlt]
  · simp [images, List.map_set]

end PictureRing

def RingNote.conversion? : RingNote → Option (Image × Image)
  | .converted handed left => some (handed, left)
  | _ => none

namespace RingUse

def buffers (u : RingUse) : Buffers Image := ⟨u.spare, u.ring.images⟩

def bufferAct (u : RingUse) : RingMove → BufferAct
  | .goOn =>
    match u.point with
    | .convert _ conversion => .paint (conversion u.spare).2
    | .commit _ => if u.ring.accepts then .swap u.ring.writeAt else .keep
    | _ => .keep
  | _ => .keep

def rotation (u : RingUse) (b : Rotation) : List RingMove → Rotation
  | [] => b
  | m :: moves => (u.move m).2.rotation (b.act (u.bufferAct m)) moves

theorem buffers_goOn {u : RingUse} (hl : u.ring.Laid) :
    u.goOn.2.buffers = u.buffers.act (u.bufferAct .goOn) := by
  cases hp : u.point with
  | away => simp [goOn, bufferAct, hp, Buffers.act]
  | place pts conversion =>
    simp only [goOn, bufferAct, hp, Buffers.act]
    split <;> rfl
  | convert pts conversion =>
    simp only [goOn, bufferAct, hp, Buffers.act]
    split <;> simp [buffers, *]
  | commit pts =>
    cases ha : u.ring.accepts with
    | true =>
      obtain ⟨hspare, himages⟩ := PictureRing.commit_of_accepts hl ha pts u.spare
      simp [goOn, bufferAct, hp, ha, buffers, Buffers.act, Buffers.swap, hspare, himages]
    | false =>
      simp [goOn, bufferAct, hp, ha, buffers, Buffers.act, PictureRing.commit_of_not_accepts ha]

theorem buffers_move {u : RingUse} (hl : u.ring.Laid) {m : RingMove} (hm : m ≠ .releaseImages) :
    (u.move m).2.buffers = u.buffers.act (u.bufferAct m) := by
  cases m with
  | goOn => exact buffers_goOn hl
  | call pts conversion =>
    simp only [move, bufferAct, Buffers.act]
    split <;> rfl
  | stop => rfl
  | _ =>
    simp only [move, bufferAct, Buffers.act, buffers]
    rw [PictureRing.images_beside _ hm]

theorem conversions_move (u : RingUse) (m : RingMove) :
    (u.move m).1.filterMap RingNote.conversion? = u.buffers.conversions (u.bufferAct m) := by
  cases m with
  | goOn =>
    cases hp : u.point with
    | away => simp [move, goOn, bufferAct, hp, Buffers.conversions]
    | place pts conversion =>
      simp only [move, goOn, bufferAct, hp, Buffers.conversions]
      split <;> rfl
    | convert pts conversion =>
      simp only [move, goOn, bufferAct, hp, Buffers.conversions]
      split <;> simp [RingNote.conversion?, buffers, *]
    | commit pts =>
      simp only [move, goOn, bufferAct, hp]
      split <;> rfl
  | call pts conversion =>
    simp only [move, bufferAct, Buffers.conversions]
    split <;> rfl
  | _ => rfl

/-! ## The buffers in a run -/

variable {u : RingUse} {moves : List RingMove} {notes : List RingNote}

/-- **The buffers are where their names are, and hold what was painted into them.** -/
theorem buffers_run (h : u.Sound moves notes) {b : Rotation} (hb : u.buffers = b.buffers)
    (hn : b.names.all.Nodup) {more : List RingMove} (hm : .releaseImages ∉ more) :
    (u.run more).buffers = (u.rotation b more).buffers ∧
      (u.rotation b more).names.all.Perm b.names.all := by
  induction more generalizing u moves notes b with
  | nil => exact ⟨hb, .refl _⟩
  | cons m more ih =>
    have hne : m ≠ .releaseImages := fun he => hm (he ▸ List.mem_cons_self)
    have hstep : (u.move m).2.buffers = (b.act (u.bufferAct m)).buffers := by
      rw [buffers_move h.laid hne, hb, Rotation.buffers_act hn]
    have hperm := b.perm_act (u.bufferAct m)
    obtain ⟨hrest, hp⟩ := ih (h.move m) hstep (hperm.nodup_iff.2 hn) (fun he => hm (List.mem_cons_of_mem m he))
    exact ⟨hrest, hp.trans hperm⟩

/-- **A conversion is handed an empty buffer as often as there are empty buffers at most**, if each leaves its buffer
painted. -/
theorem blank_run (h : u.Sound moves notes) {more : List RingMove} (hm : .releaseImages ∉ more)
    (hpaint : ∀ c ∈ (u.history more).filterMap RingNote.conversion?, c.2.isAllocated = true) :
    ((u.history more).filterMap RingNote.conversion?).countP (fun c => !c.1.isAllocated) +
      (u.run more).buffers.blank = u.buffers.blank := by
  induction more generalizing u moves notes with
  | nil => exact Nat.zero_add _
  | cons m more ih =>
    have hne : m ≠ .releaseImages := fun he => hm (he ▸ List.mem_cons_self)
    rw [history, List.filterMap_append, List.forall_mem_append] at hpaint
    rw [history, List.filterMap_append, List.countP_append, conversions_move]
    have hrest := ih (h.move m) (fun he => hm (List.mem_cons_of_mem m he)) hpaint.2
    rw [conversions_move] at hpaint
    have hone := u.buffers.blank_act (u.bufferAct m) hpaint.1
    rw [buffers_move h.laid hne] at hrest
    change _ + ((u.move m).2.run more).buffers.blank = _
    omega

theorem ring_run {more : List RingMove} (h : ∀ p, .appended p ∉ u.history more) :
    (u.run more).ring = more.foldl PictureRing.beside u.ring := by
  induction more generalizing u with
  | nil => rfl
  | cons m more ih =>
    have hm : (u.move m).2.ring = u.ring.beside m := by
      cases m with
      | goOn => exact ring_goOn (fun p hp => h p (List.mem_append_left _ hp))
      | call pts conversion =>
        simp only [move]
        split <;> rfl
      | _ => rfl
    have hrest := ih (u := (u.move m).2) (fun p hp => h p (List.mem_append_right _ hp))
    rw [hm] at hrest
    exact hrest

/-- A picture is appended at the end of a call that comes back with true, and not to a ring that is shut. -/
theorem returned_of_appended {p : Picture} (h : .appended p ∈ u.goOn.1) :
    u.ring.holding = false ∧ u.goOn.1 = [.appended p, .returned (.ok true)] := by
  cases hp : u.point with
  | away => simp [goOn, hp] at h
  | place pts conversion =>
    simp only [goOn, hp] at h
    split at h <;> simp at h
  | convert pts conversion =>
    simp only [goOn, hp] at h
    split at h <;> simp at h
  | commit pts =>
    cases ha : u.ring.accepts with
    | true =>
      simp only [goOn, hp, ha] at h ⊢
      simp only [PictureRing.accepts, Bool.not_eq_true', Bool.or_eq_false_iff] at ha
      simp_all
    | false => simp [goOn, hp, ha] at h

end RingUse

/-! ## Whole buffers -/

/-- The producer is not about to do anything to a buffer but to give it dimensions and paint over it. -/
def ProducerPoint.Repaints : ProducerPoint → Prop
  | .place _ conversion | .convert _ conversion => ∀ image : Image, image.Repainted (conversion image).2
  | _ => True

def RingMove.Repaints : RingMove → Prop
  | .call _ conversion => ∀ image : Image, image.Repainted (conversion image).2
  | _ => True

/-- Every buffer is whole, and will be. -/
structure RingUse.Clean (u : RingUse) : Prop where
  point : u.point.Repaints
  whole : ∀ image ∈ u.buffers.all, image.Whole

namespace RingUse

variable {u : RingUse} {moves : List RingMove} {notes : List RingNote}

theorem clean_start (capacity : Nat) : ({ ring := .new capacity } : RingUse).Clean where
  point := trivial
  whole := by
    intro image hi
    have he : image = {} := by
      simpa [buffers, Buffers.all, PictureRing.images, PictureRing.new] using hi
    rw [he]
    exact Image.whole_default

theorem repaints_move (h : u.point.Repaints) {m : RingMove} (hm : m.Repaints) : (u.move m).2.point.Repaints := by
  cases m with
  | goOn =>
    cases hp : u.point with
    | away => simpa [move, goOn, hp] using h
    | place pts conversion =>
      rw [hp] at h
      simp only [move, goOn, hp]
      split
      · exact h
      · rw [hp]
        exact h
      · trivial
    | convert pts conversion =>
      simp only [move, goOn, hp]
      split <;> trivial
    | commit pts => simp [move, goOn, hp, ProducerPoint.Repaints]
  | call pts conversion =>
    simp only [move]
    split
    · exact hm
    · exact h
  | _ => exact h

theorem Clean.act (h : u.Clean) (m : RingMove) : ∀ image ∈ (u.buffers.act (u.bufferAct m)).all, image.Whole := by
  have hpoint := h.point
  unfold bufferAct
  split
  · split
    · next hp =>
      rw [hp] at hpoint
      intro image hi
      rcases List.mem_cons.1 hi with rfl | hi
      · exact (hpoint u.spare).whole (h.whole _ List.mem_cons_self)
      · exact h.whole image (List.mem_cons_of_mem _ hi)
    · split
      · exact fun image hi => h.whole image ((u.buffers.perm_swap _).mem_iff.1 hi)
      · exact h.whole
    · exact h.whole
  · exact h.whole

theorem Clean.move (h : u.Clean) (hl : u.ring.Laid) {m : RingMove} (hm : m.Repaints) : (u.move m).2.Clean where
  point := repaints_move h.point hm
  whole := by
    by_cases hr : m = .releaseImages
    · subst hr
      intro image hi
      rcases List.mem_cons.1 hi with rfl | hi
      · exact h.whole _ List.mem_cons_self
      · have he : image = {} := by
          simp only [buffers, RingUse.move, PictureRing.beside, PictureRing.images, PictureRing.releaseImages,
            Array.toList_map, List.map_map, List.mem_map] at hi
          exact hi.elim (fun _ hp => hp.2.symm)
        rw [he]
        exact Image.whole_default
    · rw [buffers_move hl hr]
      exact h.act m

theorem Clean.run (h : u.Clean) (hs : u.Sound moves notes) {more : List RingMove} (hm : ∀ m ∈ more, m.Repaints) :
    (u.run more).Clean := by
  induction more generalizing u moves notes with
  | nil => exact h
  | cons m more ih =>
    exact ih (h.move hs.laid (hm m List.mem_cons_self)) (hs.move m) (fun n hn => hm n (List.mem_cons_of_mem m hn))

end RingUse

/-- The bound is met: a ring of two slots has three buffers to be painted. -/
example :
    let round : List RingMove :=
      [.call 0 (fun image => (.ok (), image.resize 1 1)), .goOn, .goOn, .goOn, .refresh none 0]
    (((({ ring := .new 2 } : RingUse).history (List.replicate 5 round).flatten).filterMap
      RingNote.conversion?).countP (fun c => !c.1.isAllocated)) = 3 := by decide +kernel

end Playhead
