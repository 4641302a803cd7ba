import Playhead.Proofs.QueueSteps
import Playhead.Proofs.SeekRequests
import Playhead.Script.Source
/-!
# Timelines — what comes out of a packet queue

Every successful seek opens a timeline: a marker, and behind it the packets that are routed from then on.  A queue gives
each timeline from its front and in its order, and nothing of it once the next one has begun
(`Session.queue_timelines`).  The law of a queue (`LaneLaw`) is kept by each of the things that an action can do to it.
-/
namespace Playhead

variable {C K D : Type}

/-- A list of segments, of which the last one is being written. -/
structure Segments (α : Type) where
  past : List α := []
  last : α

namespace Segments

variable {α β : Type}

def all (s : Segments α) : List α := s.past ++ [s.last]

def next (s : Segments α) (first : α) : Segments α := ⟨s.all, first⟩

def extend (s : Segments α) (f : α → α) : Segments α := { s with last := f s.last }

def map (f : α → β) (s : Segments α) : Segments β := ⟨s.past.map f, f s.last⟩

theorem all_map (f : α → β) (s : Segments α) : (s.map f).all = s.all.map f := by simp [map, all]

end Segments

def Paired {α β : Type} (R : α → β → Prop) (as : List α) (bs : List β) : Prop :=
  as.length = bs.length ∧ ∀ p ∈ as.zip bs, R p.1 p.2

namespace Paired

variable {α β γ : Type} {R : α → β → Prop} {as as' : List α} {bs bs' : List β}

theorem single {a : α} {b : β} (h : R a b) : Paired R [a] [b] := ⟨rfl, by simpa using h⟩

theorem append (h : Paired R as bs) (h' : Paired R as' bs') : Paired R (as ++ as') (bs ++ bs') := by
  refine ⟨by rw [List.length_append, List.length_append, h.1, h'.1], fun p hp => ?_⟩
  rw [List.zip_append h.1] at hp
  rcases List.mem_append.1 hp with hp | hp
  · exact h.2 p hp
  · exact h'.2 p hp

theorem of_map {f : γ → β} {cs : List γ} (h : Paired R as (cs.map f)) : Paired (fun a c => R a (f c)) as cs := by
  refine ⟨h.1.trans (List.length_map f), fun p hp => h.2 (p.1, f p.2) ?_⟩
  rw [List.zip_map_right]
  exact List.mem_map_of_mem hp

theorem partner (h : Paired R as bs) {a : α} (ha : a ∈ as) : ∃ b ∈ bs, R a b := by
  obtain ⟨k, hk, rfl⟩ := List.mem_iff_getElem.1 ha
  have hk' : k < bs.length := by rwa [← h.1]
  have hz : k < (as.zip bs).length := by
    rw [List.length_zip]
    omega
  refine ⟨bs[k], List.getElem_mem hk', h.2 (as[k], bs[k]) ?_⟩
  rw [← List.getElem_zip (h := hz)]
  exact List.getElem_mem hz

end Paired

/-- The packets read between two seeks, and where the first of the seeks went; nowhere before the first seek. -/
structure Timeline where
  seek : Option Ticks := none
  packets : List Packet := []

/-- A timeline as the queue of a stream should show it. -/
def Timeline.items (stream : StreamInfo) (t : Timeline) : List QueueItem :=
  t.seek.toList.map (SeekStage.marker stream) ++ t.packets.map .packet

/-! ## Histories of a queue -/

/-- What was put on a queue, from each of its clears to the next. -/
def Note.given (lane : Lane) (s : Segments (List QueueItem)) : Note → Segments (List QueueItem)
  | .cleared l => if l = lane then s.next [] else s
  | .put l i => if l = lane then s.extend (· ++ [i]) else s
  | _ => s

/-- What was taken from a queue, from each of its clears to the next. -/
def Note.obtained (lane : Lane) (s : Segments (List QueueItem)) : Note → Segments (List QueueItem)
  | .cleared l => if l = lane then s.next [] else s
  | .took l i => if l = lane then s.extend (· ++ [i]) else s
  | _ => s

/-- The packets that were routed to a queue, from each successful seek to the next. -/
def Note.timelines (dest : Packet → Option Lane) (lane : Lane) (s : Segments Timeline) : Note → Segments Timeline
  | .sought us => s.next { seek := some us }
  | .routed p =>
    if dest p = some lane then s.extend (fun t => { t with packets := t.packets ++ [p] }) else s
  | _ => s

def Note.took? (lane : Lane) : Note → Option QueueItem
  | .took l i => if l = lane then some i else none
  | _ => none

def given (lane : Lane) (notes : List Note) : Segments (List QueueItem) :=
  notes.foldl (Note.given lane) { last := [] }

def obtained (lane : Lane) (notes : List Note) : Segments (List QueueItem) :=
  notes.foldl (Note.obtained lane) { last := [] }

def timelines (dest : Packet → Option Lane) (lane : Lane) (notes : List Note) : Segments Timeline :=
  notes.foldl (Note.timelines dest lane) { last := {} }

def Note.sought? : Note → Option Ticks
  | .sought us => some us
  | _ => none

def Note.routed? : Note → Option Packet
  | .routed p => some p
  | _ => none

def Note.read? : Note → Option Packet
  | .read (.ok (some p)) => some p
  | _ => none

theorem view_foldl {σ α β : Type} {f : σ → α → σ} (view : σ → List β) {pick : α → Option β}
    (h : ∀ s a, view (f s a) = view s ++ (pick a).toList) (l : List α) (s : σ) :
    view (l.foldl f s) = view s ++ l.filterMap pick := by
  induction l generalizing s with
  | nil => simp
  | cons a l ih =>
    rw [List.foldl_cons, ih, h, List.append_assoc, List.filterMap_cons]
    cases pick a <;> rfl

theorem flatten_obtained (lane : Lane) (notes : List Note) :
    (obtained lane notes).all.flatten = notes.filterMap (Note.took? lane) := by
  refine view_foldl (fun s : Segments (List QueueItem) => s.all.flatten) (fun s n => ?_) notes _
  cases n with
  | cleared l => by_cases hl : l = lane <;> simp [Note.obtained, Note.took?, hl, Segments.next, Segments.all]
  | took l i => by_cases hl : l = lane <;> simp [Note.obtained, Note.took?, hl, Segments.extend, Segments.all]
  | _ => simp [Note.obtained, Note.took?]

/-- There is one timeline before the first successful seek, and one for each successful seek. -/
theorem seek_timelines (dest : Packet → Option Lane) (lane : Lane) (notes : List Note) :
    (timelines dest lane notes).all.map (·.seek) = none :: (notes.filterMap Note.sought?).map some := by
  rw [List.map_filterMap]
  refine view_foldl (fun s : Segments Timeline => s.all.map (·.seek)) (fun s n => ?_) notes _
  cases n with
  | sought us => simp [Note.timelines, Note.sought?, Segments.next, Segments.all]
  | routed p =>
    by_cases hp : dest p = some lane <;>
      simp [Note.timelines, Note.sought?, hp, Segments.extend, Segments.all]
  | _ => simp [Note.timelines, Note.sought?]

theorem packets_timelines (dest : Packet → Option Lane) (lane : Lane) (notes : List Note) :
    (timelines dest lane notes).all.flatMap (·.packets) =
      (notes.filterMap Note.routed?).filter (fun p => dest p = some lane) := by
  rw [List.filter_filterMap]
  refine view_foldl (fun s : Segments Timeline => s.all.flatMap (·.packets)) (fun s n => ?_) notes _
  cases n with
  | sought us => simp [Note.timelines, Note.routed?, Segments.next, Segments.all]
  | routed p =>
    by_cases hp : dest p = some lane <;>
      simp [Note.timelines, Note.routed?, hp, Segments.extend, Segments.all, Option.filter]
  | _ => simp [Note.timelines, Note.routed?]

theorem dest_of_mem_timelines {dest : Packet → Option Lane} {lane : Lane} {notes : List Note} {t : Timeline}
    (ht : t ∈ (timelines dest lane notes).all) {p : Packet} (hp : p ∈ t.packets) : dest p = some lane := by
  have hm : p ∈ (timelines dest lane notes).all.flatMap (·.packets) := List.mem_flatMap.2 ⟨t, ht, hp⟩
  rw [packets_timelines] at hm
  exact of_decide_eq_true (List.mem_filter.1 hm).2

theorem Deck.stream_of_laneOf {d : Deck} {lane : Lane} {stream : StreamInfo} {p : Packet}
    (hs : d.stream? lane = some stream) (hp : d.laneOf p = some lane) : p.stream = stream.index := by
  unfold Deck.laneOf at hp
  split at hp
  · next h =>
    cases hp
    rw [Deck.stream?] at hs
    rw [hs] at h
    exact (Option.some.inj h).symm
  · split at hp
    · next h =>
      cases hp
      rw [Deck.stream?] at hs
      rw [hs] at h
      exact (Option.some.inj h).symm
    · cases hp

/-! ## The law of a queue -/

section

variable {lane : Lane} {stream : StreamInfo} {dest : Packet → Option Lane} {phase phase' : Phase}
  {items items' : List QueueItem} {notes ns : List Note}

/-- How what was put hangs together with what should be, in each phase of a seek. -/
def Phase.Told (stream : StreamInfo) (put : Segments (List QueueItem)) (lines : Segments Timeline) : Phase → Prop
  | .settled => put = lines.map (Timeline.items stream)
  | .toClear us =>
    ∃ before : Segments Timeline, put = before.map (Timeline.items stream) ∧ lines = before.next { seek := some us }
  | .toShut us | .toMark us =>
    put = ⟨lines.past.map (Timeline.items stream), []⟩ ∧ lines.last = { seek := some us }

/-- What was taken from a queue is the front of what was put, in each segment; what is left is what is still queued; and
what was put are the timelines. -/
structure LaneLaw (lane : Lane) (stream : StreamInfo) (dest : Packet → Option Lane) (phase : Phase)
    (items : List QueueItem) (notes : List Note) : Prop where
  past : Paired (· <+: ·) (obtained lane notes).past (given lane notes).past
  last : (obtained lane notes).last ++ items = (given lane notes).last
  told : phase.Told stream (given lane notes) (timelines dest lane notes)

theorem laneLaw_start (lane : Lane) (stream : StreamInfo) (dest : Packet → Option Lane) :
    LaneLaw lane stream dest .settled [] ([] : List Note) where
  past := ⟨rfl, fun p hp => by cases hp⟩
  last := rfl
  told := rfl

theorem foldl_eq_self {α β : Type} {f : β → α → β} {l : List α} (h : ∀ a ∈ l, ∀ b, f b a = b) (b : β) :
    l.foldl f b = b := by
  induction l with
  | nil => rfl
  | cons a l ih =>
    rw [List.foldl_cons, h a List.mem_cons_self, ih (fun c hc => h c (List.mem_cons_of_mem a hc))]

theorem Apart.histories (h : Apart dest lane ns) (notes : List Note) :
    given lane (notes ++ ns) = given lane notes ∧ obtained lane (notes ++ ns) = obtained lane notes ∧
      timelines dest lane (notes ++ ns) = timelines dest lane notes := by
  refine ⟨?_, ?_, ?_⟩
  · rw [given, List.foldl_append]
    refine foldl_eq_self (fun n hn s => ?_) _
    have hc := h n hn
    cases n <;> simp_all [Note.given, Note.concerns]
  · rw [obtained, List.foldl_append]
    refine foldl_eq_self (fun n hn s => ?_) _
    have hc := h n hn
    cases n <;> simp_all [Note.obtained, Note.concerns]
  · rw [timelines, List.foldl_append]
    refine foldl_eq_self (fun n hn s => ?_) _
    have hc := h n hn
    cases n <;> simp_all [Note.timelines, Note.concerns]

theorem given_append (lane : Lane) (notes ns : List Note) :
    given lane (notes ++ ns) = ns.foldl (Note.given lane) (given lane notes) := List.foldl_append

theorem obtained_append (lane : Lane) (notes ns : List Note) :
    obtained lane (notes ++ ns) = ns.foldl (Note.obtained lane) (obtained lane notes) := List.foldl_append

theorem timelines_append (dest : Packet → Option Lane) (lane : Lane) (notes ns : List Note) :
    timelines dest lane (notes ++ ns) = ns.foldl (Note.timelines dest lane) (timelines dest lane notes) :=
  List.foldl_append

theorem LaneLaw.keep (h : LaneLaw lane stream dest phase items notes)
    (hg : given lane (notes ++ ns) = given lane notes) (ho : obtained lane (notes ++ ns) = obtained lane notes)
    (told : phase'.Told stream (given lane notes) (timelines dest lane (notes ++ ns))) :
    LaneLaw lane stream dest phase' items (notes ++ ns) where
  past := by
    rw [hg, ho]
    exact h.past
  last := by
    rw [hg, ho]
    exact h.last
  told := by
    rw [hg]
    exact told

theorem LaneLaw.put {i : QueueItem} (h : LaneLaw lane stream dest phase items notes)
    (hg : given lane (notes ++ ns) = (given lane notes).extend (· ++ [i]))
    (ho : obtained lane (notes ++ ns) = obtained lane notes)
    (told : phase'.Told stream ((given lane notes).extend (· ++ [i])) (timelines dest lane (notes ++ ns))) :
    LaneLaw lane stream dest phase' (items ++ [i]) (notes ++ ns) where
  past := by
    rw [hg, ho]
    exact h.past
  last := by
    rw [hg, ho, ← List.append_assoc]
    exact congrArg (· ++ [i]) h.last
  told := by
    rw [hg]
    exact told

theorem LaneLaw.clear {us : Ticks} (h : LaneLaw lane stream dest (.toClear us) items notes) :
    LaneLaw lane stream dest (lane.afterClear us) [] (notes ++ [.cleared lane]) := by
  have hg : given lane (notes ++ [.cleared lane]) = (given lane notes).next [] := by
    simp [given_append, Note.given]
  have ho : obtained lane (notes ++ [.cleared lane]) = (obtained lane notes).next [] := by
    simp [obtained_append, Note.obtained]
  constructor
  case past =>
    rw [hg, ho]
    exact h.past.append (.single ⟨items, h.last⟩)
  case last =>
    rw [hg, ho]
    rfl
  case told =>
    obtain ⟨before, hb, hl⟩ := h.told
    have cleared : (given lane notes).next [] = ⟨(timelines dest lane notes).past.map (Timeline.items stream), []⟩ ∧
        (timelines dest lane notes).last = { seek := some us } := by
      rw [hb, hl]
      simp [Segments.next, Segments.all_map]
    rw [hg, timelines_append]
    cases lane <;> exact cleared

theorem LaneLaw.take {i : QueueItem} (h : LaneLaw lane stream dest phase (i :: items) notes) :
    LaneLaw lane stream dest phase items (notes ++ [.took lane i]) := by
  have hg : given lane (notes ++ [.took lane i]) = given lane notes := given_append ..
  have ho : obtained lane (notes ++ [.took lane i]) = (obtained lane notes).extend (· ++ [i]) := by
    simp [obtained_append, Note.obtained]
  constructor
  case past =>
    rw [hg, ho]
    exact h.past
  case last =>
    rw [hg, ho]
    change (obtained lane notes).last ++ [i] ++ items = (given lane notes).last
    rw [List.append_assoc]
    exact h.last
  case told =>
    rw [hg, timelines_append]
    exact h.told

theorem LaneLaw.step (h : LaneLaw lane stream dest phase items notes)
    (hs : lane.Step stream dest phase items ns phase' items') :
    LaneLaw lane stream dest phase' items' (notes ++ ns) := by
  cases hs with
  | quiet phase items hq =>
    obtain ⟨hg, ho, ht⟩ := hq.histories notes
    exact h.keep hg ho (ht ▸ h.told)
  | seek target us items =>
    refine h.keep (given_append ..) (obtained_append ..) ?_
    rw [timelines_append]
    exact ⟨_, h.told, rfl⟩
  | clear us items => exact h.clear
  | shut us items =>
    refine h.keep (given_append ..) (obtained_append ..) ?_
    rw [timelines_append]
    exact h.told
  | mark us items =>
    obtain ⟨hput, hlast⟩ := h.told
    refine h.put (by simp [given_append, Note.given]) (obtained_append ..) ?_
    rw [timelines_append, hput]
    change _ = (timelines dest lane notes).map (Timeline.items stream)
    simp [Segments.extend, Segments.map, hlast, Timeline.items]
  | @route p items hp =>
    have told : given lane notes = (timelines dest lane notes).map (Timeline.items stream) := h.told
    refine h.put (by simp [given_append, Note.given]) (obtained_append ..) ?_
    have ht : timelines dest lane (notes ++ [.routed p, .put lane (.packet p)]) =
        (timelines dest lane notes).extend (fun t => { t with packets := t.packets ++ [p] }) := by
      simp [timelines_append, Note.timelines, hp]
    rw [ht, told]
    change _ = Segments.map _ _
    simp [Segments.extend, Segments.map, Timeline.items]
  | take phase i items => exact h.take

/-- Every segment that was taken is the front of its timeline; only the timeline of a seek that has not come to the
queue yet is not begun. -/
theorem LaneLaw.fronts (h : LaneLaw lane stream dest phase items notes) :
    ∃ begun, ((timelines dest lane notes).all = begun ∨
        ∃ us, phase = .toClear us ∧ (timelines dest lane notes).all = begun ++ [{ seek := some us }]) ∧
      Paired (fun taken t => taken <+: t.items stream) (obtained lane notes).all begun := by
  have fronts : Paired (· <+: ·) (obtained lane notes).all (given lane notes).all :=
    h.past.append (.single ⟨items, h.last⟩)
  have empty (he : (given lane notes).last = []) : (obtained lane notes).last = [] :=
    (List.append_eq_nil_iff.1 (h.last.trans he)).1
  obtain ⟨past, last, told⟩ := h
  cases phase with
  | settled =>
    have told : given lane notes = (timelines dest lane notes).map (Timeline.items stream) := told
    refine ⟨_, .inl rfl, ?_⟩
    rw [told, Segments.all_map] at fronts
    exact fronts.of_map
  | toClear us =>
    obtain ⟨before, hb, hl⟩ := told
    refine ⟨before.all, .inr ⟨us, rfl, ?_⟩, ?_⟩
    · rw [hl]
      rfl
    · rw [hb, Segments.all_map] at fronts
      exact fronts.of_map
  | toShut us | toMark us =>
    obtain ⟨hput, -⟩ := told
    have hlast := empty (by rw [hput])
    rw [hput] at past
    exact ⟨_, .inl rfl, past.of_map.append (.single (by rw [hlast]; exact List.nil_prefix))⟩

theorem Phase.Told.mem {put : Segments (List QueueItem)} {lines : Segments Timeline} (h : phase.Told stream put lines)
    {segment : List QueueItem} (hs : segment ∈ put.all) {i : QueueItem} (hi : i ∈ segment) :
    ∃ t ∈ lines.all, i ∈ t.items stream := by
  cases phase with
  | settled =>
    have h : put = lines.map (Timeline.items stream) := h
    rw [h, Segments.all_map] at hs
    obtain ⟨t, ht, rfl⟩ := List.mem_map.1 hs
    exact ⟨t, ht, hi⟩
  | toClear us =>
    obtain ⟨before, hb, hl⟩ := h
    rw [hb, Segments.all_map] at hs
    obtain ⟨t, ht, rfl⟩ := List.mem_map.1 hs
    refine ⟨t, ?_, hi⟩
    rw [hl]
    exact List.mem_append_left _ ht
  | toShut us | toMark us =>
    obtain ⟨hput, -⟩ := h
    rw [hput] at hs
    rcases List.mem_append.1 hs with hs | hs
    · obtain ⟨t, ht, rfl⟩ := List.mem_map.1 hs
      exact ⟨t, List.mem_append_left _ ht, hi⟩
    · rw [List.mem_singleton.1 hs] at hi
      cases hi

theorem LaneLaw.mem (h : LaneLaw lane stream dest phase items notes) {i : QueueItem}
    (hi : i ∈ (obtained lane notes).all.flatten ++ items) :
    ∃ t ∈ (timelines dest lane notes).all, i ∈ t.items stream := by
  have fronts : Paired (· <+: ·) (obtained lane notes).all (given lane notes).all :=
    h.past.append (.single ⟨items, h.last⟩)
  rcases List.mem_append.1 hi with hi | hi
  · obtain ⟨taken, ht, hi⟩ := List.mem_flatten.1 hi
    obtain ⟨segment, hs, hfront⟩ := fronts.partner ht
    exact h.told.mem hs (hfront.subset hi)
  · refine h.told.mem (List.mem_append_right _ List.mem_cons_self) ?_
    rw [← h.last]
    exact List.mem_append_right _ hi

end

/-! ## The law of a run -/

def DemuxPoint.inHand : DemuxPoint → List Packet
  | .arrived p | .route p => [p]
  | _ => []

namespace Session

variable [Container C K] [VideoCodec K] [AudioDecoder D]

theorem laneOf_move (s : Session C K D) (now : Nat) (m : Move) : (s.move now m).deck.laneOf = s.deck.laneOf := by
  obtain ⟨hv, ha⟩ := s.move_streams now m
  funext p
  rw [Deck.laneOf, Deck.laneOf, hv, ha]

theorem stream_move (s : Session C K D) (now : Nat) (m : Move) (lane : Lane) :
    (s.move now m).deck.stream? lane = s.deck.stream? lane := by
  obtain ⟨hv, ha⟩ := s.move_streams now m
  cases lane
  · exact hv
  · exact ha

theorem laneLaw_run {start : Session C K D} {lane : Lane} {stream : StreamInfo}
    (hs : start.deck.stream? lane = some stream) (hp : start.demuxer.point.phase lane = .settled)
    (hq : (start.deck.queue lane).items = []) (moves : List (Nat × Move)) :
    let s := start.run moves
    LaneLaw lane stream start.deck.laneOf (s.demuxer.point.phase lane) (s.deck.queue lane).items
      (start.chronicle moves) := by
  have keep : ∀ (s : Session C K D) (notes : List Note) (now : Nat) (m : Move),
      (s.deck.laneOf = start.deck.laneOf ∧ s.deck.stream? lane = some stream ∧
        LaneLaw lane stream start.deck.laneOf (s.demuxer.point.phase lane) (s.deck.queue lane).items notes) →
      ((s.move now m).deck.laneOf = start.deck.laneOf ∧ (s.move now m).deck.stream? lane = some stream ∧
        LaneLaw lane stream start.deck.laneOf ((s.move now m).demuxer.point.phase lane)
          ((s.move now m).deck.queue lane).items (notes ++ s.notes m)) := by
    intro s notes now m ⟨hd, hs, law⟩
    have step := Session.laneStep hs now m
    rw [hd] at step
    exact ⟨(s.laneOf_move now m).trans hd, (s.stream_move now m lane).trans hs, law.step step⟩
  have law := laneLaw_start lane stream start.deck.laneOf
  rw [← hp, ← hq] at law
  exact (run_keeps keep start [] ⟨rfl, hs, law⟩ moves).2.2

omit [AudioDecoder D] in
theorem notes_unread (s : Session C K D) {m : Move} (hm : m ≠ .demux) :
    (s.notes m).filterMap Note.read? = [] ∧ (s.notes m).filterMap Note.routed? = [] := by
  cases m with
  | demux => exact absurd rfl hm
  | decode =>
    simp only [notes]
    cases s.decoder with
    | none => exact ⟨rfl, rfl⟩
    | some w =>
      simp only [Option.elim_some, Decoder.notes]
      split
      · cases (s.deck.videoQueue.take s.deck.stop).1 <;> exact ⟨rfl, rfl⟩
      · exact ⟨rfl, rfl⟩
  | takeAudio =>
    simp only [notes]
    cases s.takeAudio.1 <;> exact ⟨rfl, rfl⟩
  | refresh master =>
    simp only [notes]
    split <;> exact ⟨rfl, rfl⟩
  | requestSeek target | setPaused on | beginClose => exact ⟨rfl, rfl⟩

/-- A packet is routed in the action after the next one of the demuxer. -/
theorem reads_step (s : Session C K D) (now : Nat) (m : Move) :
    s.demuxer.point.inHand ++ (s.notes m).filterMap Note.read? =
      (s.notes m).filterMap Note.routed? ++ (s.move now m).demuxer.point.inHand := by
  by_cases hm : m = .demux
  · subst hm
    change s.demuxer.point.inHand ++ (s.demuxer.notes s.deck).filterMap Note.read? =
      (s.demuxer.notes s.deck).filterMap Note.routed? ++ (s.demuxer.step now s.deck).2.1.point.inHand
    cases hp : s.demuxer.point with
    | read =>
      simp only [Demuxer.step, Demuxer.notes, hp]
      rcases Container.read s.demuxer.container with ⟨r, c⟩
      rcases r with (_ | p) | e | _ <;> rfl
    | arrived p =>
      simp only [Demuxer.step, Demuxer.notes, hp]
      rfl
    | route p =>
      simp only [Demuxer.step, Demuxer.notes, hp]
      cases s.deck.laneOf p <;> rfl
    | poll =>
      simp only [Demuxer.step, Demuxer.notes, hp]
      cases s.deck.pendingSeek <;> rfl
    | seek target =>
      simp only [Demuxer.step, Demuxer.notes, hp]
      rcases Container.seek s.demuxer.container (seekMicros target) with ⟨r, c⟩
      cases r <;> rfl
    | apply target us stage =>
      have hnext : ((stage.next s.deck).elim (DemuxPoint.retire target) (.apply target us)).inHand = [] := by
        cases stage.next s.deck <;> rfl
      simp only [Demuxer.step, hp, hnext, Demuxer.notes]
      cases stage with
      | markAudio => cases s.deck.audio <;> rfl
      | markVideo => cases s.deck.video <;> rfl
      | _ => rfl
    | start =>
      simp only [Demuxer.step, Demuxer.notes, hp, DemuxPoint.entry]
      split <;> rfl
    | top | audioRoom | videoRoom | videoIdle | audioIdle | ringEmpty =>
      simp only [Demuxer.step, Demuxer.notes, hp]
      split <;> rfl
    | retire target | markEnded | leaving how =>
      simp only [Demuxer.step, Demuxer.notes, hp]
      rfl
    | gone how =>
      simp only [Demuxer.step, Demuxer.notes, hp]
      rfl
  · obtain ⟨hread, hrouted⟩ := s.notes_unread hm
    rw [hread, hrouted, (s.move_slot now hm).1, List.append_nil]
    rfl

theorem reads_run {start : Session C K D} (hp : start.demuxer.point.inHand = []) (moves : List (Nat × Move)) :
    (start.chronicle moves).filterMap Note.read? =
      (start.chronicle moves).filterMap Note.routed? ++ (start.run moves).demuxer.point.inHand := by
  refine run_keeps (P := fun s notes => notes.filterMap Note.read? =
    notes.filterMap Note.routed? ++ s.demuxer.point.inHand) (fun s notes now m h => ?_) start [] ?_ moves
  · rw [List.filterMap_append, List.filterMap_append, h, List.append_assoc, s.reads_step now m, List.append_assoc]
  · rw [hp]
    rfl

/-- **A queue keeps its timelines apart and in order.**  For every run and each stream that is played: what the consumer
took from the queue are fronts of what was put, from each clear to the next, and what it took last together with what
is still queued is all that was put since the last clear; what was put are the timelines, each with one marker in front
of the packets that were routed from its seek to the next, except that a seek that is on its way has not put its own
timeline yet.  So each segment that was taken is the front of its timeline, and nothing of another stream is among it.
There is one timeline more than successful seeks, and every packet that was read is routed once, in order. -/
theorem queue_timelines (now : Nat) (config : Config) (container : C) (audio : Option (StreamInfo × D))
    (video : Option (StreamInfo × K)) (moves : List (Nat × Move)) (lane : Lane) (stream : StreamInfo)
    (hs : (Player.sessionOf now config container audio video : Session C K D).deck.stream? lane = some stream) :
    let start : Session C K D := Player.sessionOf now config container audio video
    let s := start.run moves
    let notes := start.chronicle moves
    let taken := obtained lane notes
    let put := given lane notes
    let lines := timelines start.deck.laneOf lane notes
    (taken.all.flatten = notes.filterMap (Note.took? lane) ∧
      Paired (· <+: ·) taken.past put.past ∧ taken.last ++ (s.deck.queue lane).items = put.last) ∧
    (s.demuxer.point.phase lane).Told stream put lines ∧
    (∃ begun, (lines.all = begun ∨
        ∃ us, s.demuxer.point.phase lane = .toClear us ∧ lines.all = begun ++ [{ seek := some us }]) ∧
      Paired (fun segment t => segment <+: t.items stream) taken.all begun) ∧
    (∀ p, .packet p ∈ taken.all.flatten ++ (s.deck.queue lane).items → p.stream = stream.index) ∧
    (lines.all.map (·.seek) = none :: (notes.filterMap Note.sought?).map some ∧
      lines.all.flatMap (·.packets) =
        (notes.filterMap Note.routed?).filter (fun p => start.deck.laneOf p = some lane) ∧
      notes.filterMap Note.read? = notes.filterMap Note.routed? ++ s.demuxer.point.inHand) := by
  intro start s notes taken put lines
  have law : LaneLaw lane stream start.deck.laneOf (s.demuxer.point.phase lane) (s.deck.queue lane).items notes :=
    laneLaw_run hs (by cases lane <;> rfl) (by cases lane <;> rfl) moves
  refine ⟨⟨flatten_obtained lane notes, law.past, law.last⟩, law.told, law.fronts, fun p hp => ?_,
    seek_timelines _ _ _, packets_timelines _ _ _, reads_run rfl moves⟩
  obtain ⟨t, ht, hp⟩ := law.mem hp
  have hmem : p ∈ t.packets := by
    rcases List.mem_append.1 hp with hp | hp
    · obtain ⟨us, -, hc⟩ := List.mem_map.1 hp
      cases hc
    · obtain ⟨q, hq, hc⟩ := List.mem_map.1 hp
      cases hc
      exact hq
  exact Deck.stream_of_laneOf hs (dest_of_mem_timelines ht hmem)

/-- A seek with a packet of the first timeline still queued: it never comes out, and the marker opens the second one. -/
theorem queue_timelines_two_packets :
    let stream : StreamInfo := { kind := .video, timeBase := ⟨1, 1⟩ }
    let sample (second : Nat) (stream : Nat) : Script.Item :=
      .sample { stream, pts := some (.ofNat second), size := 4, landing := some (second * 1000000) }
    let items : Array Script.Item := #[sample 0 0, sample 0 1, sample 1 0, sample 2 0]
    let start : Session Script.Source Script.Codec Empty :=
      Player.sessionOf 0 {} { items } none (some (stream, { items }))
    let moves := (List.range 56).map (fun k =>
      (k, if k = 24 then .requestSeek 2 else if k % 14 = 13 then Move.decode else .demux))
    let s := start.run moves
    let taken := obtained .video (start.chronicle moves)
    let put := given .video (start.chronicle moves)
    let lines := timelines start.deck.laneOf .video (start.chronicle moves)
    start.deck.stream? .video = some stream ∧
      lines.all.map (·.seek) = [none, some 2000000] ∧
      lines.all.map (·.packets.map (·.pts)) = [[some 0, some 1], [some 2]] ∧
      taken.all.map List.length = [1, 1] ∧ s.deck.videoQueue.items.length = 1 ∧
      taken.last ++ s.deck.videoQueue.items = put.last ∧
      Paired (fun segment t => segment <+: t.items stream) taken.all lines.all ∧
      ∀ p, .packet p ∈ taken.all.flatten ++ s.deck.videoQueue.items → p.stream = 0 := by
  intro stream sample items start moves s taken put lines
  have there : lines.all.map (·.seek) = [none, some 2000000] ∧
      lines.all.map (·.packets.map (·.pts)) = [[some 0, some 1], [some 2]] ∧
      taken.all.map List.length = [1, 1] ∧ s.deck.videoQueue.items.length = 1 ∧
      s.demuxer.point.phase .video = .settled := by decide +kernel
  clear_value moves
  obtain ⟨seeks, packets, lengths, queued, settled⟩ := there
  obtain ⟨⟨-, -, last⟩, -, ⟨begun, whole, fronts⟩, streams, -⟩ :=
    queue_timelines (D := Empty) 0 {} ({ items } : Script.Source) none (some (stream, ({ items } : Script.Codec))) moves
      .video stream rfl
  refine ⟨rfl, seeks, packets, lengths, queued, last, ?_, streams⟩
  rcases whole with rfl | ⟨us, hus, -⟩
  · exact fronts
  · cases settled.symm.trans hus

end Session
end Playhead
