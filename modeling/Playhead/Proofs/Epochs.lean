import Playhead.Proofs.Timelines
/-!
# Epochs — what happens from the shutting of the ring on

An epoch begins when a seek shuts the ring.  Its timeline is opened by the marker of that seek, and the decode worker
takes the marker and the packets behind it from the front of the queue (`Epoch.Queued`).
-/
namespace Playhead

/-- What happened on the video side since the ring was shut last, or since the start: the packets that were read and
those that were routed, the items that the decode worker took, the pictures that left the ring. -/
structure Epoch extends Timeline where
  read : List Packet := []
  taken : List QueueItem := []
  left : List Picture := []

def Note.epoch (dest : Packet → Option Lane) (e : Epoch) : Note → Epoch
  | .shut us => { seek := some us }
  | .read (.ok (some p)) => if dest p = some .video then { e with read := e.read ++ [p] } else e
  | .routed p => if dest p = some .video then { e with packets := e.packets ++ [p] } else e
  | .took .video i => { e with taken := e.taken ++ [i] }
  | .left pictures => { e with left := e.left ++ pictures }
  | _ => e

namespace Epoch

def after (dest : Packet → Option Lane) (e : Epoch) (ns : List Note) : Epoch := ns.foldl (Note.epoch dest) e

theorem after_append (dest : Packet → Option Lane) (e : Epoch) (notes ns : List Note) :
    e.after dest (notes ++ ns) = (e.after dest notes).after dest ns := List.foldl_append

/-! ## The epoch and the queue -/

/-- What the decode worker took, together with what is queued, is what was put in the epoch: its marker, and its packets
behind it.  Before the ring is shut the queue is already clear. -/
def Queued (stream : StreamInfo) (items : List QueueItem) (e : Epoch) : Phase → Prop
  | .settled | .toClear _ => e.taken ++ items = e.toTimeline.items stream
  | .toShut _ => items = [] ∧ e.taken <+: e.toTimeline.items stream
  | .toMark us => items = [] ∧ e.taken = [] ∧ e.packets = [] ∧ e.seek = some us

variable {dest : Packet → Option Lane} {stream : StreamInfo} {phase phase' : Phase} {items items' : List QueueItem}
  {e : Epoch} {ns : List Note}

theorem Queued.front (h : e.Queued stream items phase) : e.taken <+: e.toTimeline.items stream := by
  cases phase with
  | settled | toClear us => exact ⟨items, h⟩
  | toShut us => exact h.2
  | toMark us =>
    rw [h.2.1]
    exact List.nil_prefix

theorem after_apart (h : Apart dest .video ns) (e : Epoch) :
    (e.after dest ns).toTimeline = e.toTimeline ∧ (e.after dest ns).taken = e.taken := by
  induction ns generalizing e with
  | nil => exact ⟨rfl, rfl⟩
  | cons n ns ih =>
    obtain ⟨ht, hi⟩ := ih (fun m hm => h m (List.mem_cons_of_mem n hm)) (Note.epoch dest e n)
    have one : (Note.epoch dest e n).toTimeline = e.toTimeline ∧ (Note.epoch dest e n).taken = e.taken := by
      have hn := h n List.mem_cons_self
      unfold Note.epoch
      split
      · cases hn
      · split <;> exact ⟨rfl, rfl⟩
      · next p =>
        rw [if_neg (by simpa [Note.concerns] using hn)]
        exact ⟨rfl, rfl⟩
      · cases hn
      · exact ⟨rfl, rfl⟩
      · exact ⟨rfl, rfl⟩
    exact ⟨ht.trans one.1, hi.trans one.2⟩

theorem Queued.step (h : e.Queued stream items phase) (hs : Lane.Step .video stream dest phase items ns phase' items') :
    (e.after dest ns).Queued stream items' phase' := by
  cases hs with
  | quiet phase items ha =>
    obtain ⟨ht, hi⟩ := e.after_apart ha
    have hseek : (e.after dest ns).seek = e.seek := congrArg Timeline.seek ht
    have hpackets : (e.after dest ns).packets = e.packets := congrArg Timeline.packets ht
    cases phase with
    | settled | toClear us =>
      change (e.after dest ns).taken ++ items = (e.after dest ns).toTimeline.items stream
      rw [ht, hi]
      exact h
    | toShut us =>
      refine ⟨h.1, ?_⟩
      rw [ht, hi]
      exact h.2
    | toMark us => exact ⟨h.1, hi.trans h.2.1, hpackets.trans h.2.2.1, hseek.trans h.2.2.2⟩
  | seek target us items => exact h
  | clear us items => exact ⟨rfl, Queued.front h⟩
  | shut us items => exact ⟨h.1, rfl, rfl, rfl⟩
  | mark us items =>
    obtain ⟨rfl, ht, hp, hs⟩ := h
    change e.taken ++ [SeekStage.marker stream us] = e.toTimeline.items stream
    simp [Timeline.items, ht, hp, hs]
  | @route p items hp =>
    have he : e.after dest [.routed p, .put .video (.packet p)] = { e with packets := e.packets ++ [p] } := by
      simp [after, Note.epoch, hp]
    have h : e.taken ++ items = e.toTimeline.items stream := h
    rw [he]
    change e.taken ++ (items ++ [.packet p]) = _
    rw [← List.append_assoc, h]
    simp [Timeline.items]
  | take phase i items =>
    cases phase with
    | settled | toClear us =>
      change e.taken ++ [i] ++ items' = e.toTimeline.items stream
      rw [List.append_assoc]
      exact h
    | toShut us | toMark us => cases h.1

end Epoch

/-! ## What does not change an epoch -/

def Note.tells : Note → Bool
  | .shut _ | .took .video _ | .left _ => true
  | _ => false

theorem Epoch.after_of_not_tells {dest : Packet → Option Lane} {ns : List Note} (h : ∀ n ∈ ns, n.tells = false)
    (e : Epoch) :
    (e.after dest ns).seek = e.seek ∧ (e.after dest ns).taken = e.taken ∧ (e.after dest ns).left = e.left := by
  induction ns generalizing e with
  | nil => exact ⟨rfl, rfl, rfl⟩
  | cons n ns ih =>
    obtain ⟨hs, ht, hl⟩ := ih (fun m hm => h m (List.mem_cons_of_mem n hm)) (Note.epoch dest e n)
    have one : (Note.epoch dest e n).seek = e.seek ∧ (Note.epoch dest e n).taken = e.taken ∧
        (Note.epoch dest e n).left = e.left := by
      have hn := h n List.mem_cons_self
      unfold Note.epoch
      split
      · cases hn
      · split <;> exact ⟨rfl, rfl, rfl⟩
      · split <;> exact ⟨rfl, rfl, rfl⟩
      · cases hn
      · cases hn
      · exact ⟨rfl, rfl, rfl⟩
    exact ⟨hs.trans one.1, ht.trans one.2.1, hl.trans one.2.2⟩

theorem Epoch.after_of_not_shut {dest : Packet → Option Lane} {ns : List Note} (h : ∀ us, .shut us ∉ ns) (e : Epoch) :
    (e.after dest ns).read = e.read ++ (ns.filterMap Note.read?).filter (fun p => dest p = some .video) ∧
      (e.after dest ns).packets = e.packets ++ (ns.filterMap Note.routed?).filter (fun p => dest p = some .video) := by
  induction ns generalizing e with
  | nil => simp [Epoch.after]
  | cons n ns ih =>
    obtain ⟨hr, hp⟩ := ih (fun us hm => h us (List.mem_cons_of_mem n hm)) (Note.epoch dest e n)
    change ((Note.epoch dest e n).after dest ns).read = _ ∧ ((Note.epoch dest e n).after dest ns).packets = _
    rw [hr, hp]
    cases n with
    | shut us => exact absurd List.mem_cons_self (h us)
    | read r =>
      rcases r with (_ | p) | _ | _
      · simp [Note.epoch, Note.read?, Note.routed?, List.filterMap_cons]
      · by_cases hd : dest p = some .video <;> simp [Note.epoch, Note.read?, Note.routed?, hd, List.filterMap_cons]
      · simp [Note.epoch, Note.read?, Note.routed?, List.filterMap_cons]
      · simp [Note.epoch, Note.read?, Note.routed?, List.filterMap_cons]
    | routed p =>
      by_cases hd : dest p = some .video <;> simp [Note.epoch, Note.read?, Note.routed?, hd, List.filterMap_cons]
    | took lane i => cases lane <;> simp [Note.epoch, Note.read?, Note.routed?, List.filterMap_cons]
    | _ => simp [Note.epoch, Note.read?, Note.routed?, List.filterMap_cons]

end Playhead
