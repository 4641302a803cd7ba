import Playhead.PacketQueue
/-!
# QueueHistories — a packet queue and everything that was done to it

A queue keeps four things: its items, their bytes, whether it ends, and whether its consumer is at work.  No operation
touches all of them: a clear leaves both marks, and a consumer that gets nothing still gives up its own.  A history says
what was done to the queue and what the consumer was told.  `QueueUse.Agrees` is what the four have to do with it; every
act keeps that (`Agrees.act`), so it holds after any history, and the answers follow from it
(`PacketQueue.agrees_with_history`).
-/
namespace Playhead

/-- What a thread does to the queue in one critical section, or to the stop flag.  A consumer that waits looks again
and again; every look is a `get`. -/
inductive QueueAct
  | put (i : QueueItem)
  | get
  | flush
  | clear
  | setStop (on : Bool)

inductive QueueNote
  | put (i : QueueItem)
  /-- The consumer looked, and this is what it was told. -/
  | got (answer : Taken)
  | ended
  | cleared
  | stopSet (on : Bool)
deriving DecidableEq

/-- What a consumer that waits is told when it looks after one more act. -/
def QueueAct.answer : QueueAct → Taken
  | .put i => .item i
  | .flush => .flushed
  | .setStop true => .stopped
  | _ => .nothing

namespace QueueNote

def putItem? : QueueNote → Option QueueItem
  | .put i => some i
  | _ => none

def gotItem? : QueueNote → Option QueueItem
  | .got (.item i) => some i
  | _ => none

def answer? : QueueNote → Option Taken
  | .got answer => some answer
  | _ => none

/-- What was noted since the queue was cleared last, or since the start. -/
def recent (notes : List QueueNote) : List QueueNote :=
  notes.foldl (fun since n => if n = .cleared then [] else since ++ [n]) []

/-- The consumer has come back since the last item that it was given, or it never got one. -/
def CameBack (notes : List QueueNote) : Prop := ∀ i, (notes.filterMap answer?).getLast? ≠ some (.item i)

theorem recent_concat (notes : List QueueNote) (n : QueueNote) :
    recent (notes ++ [n]) = if n = .cleared then [] else recent notes ++ [n] := by
  rw [recent, List.foldl_append]
  rfl

theorem cameBack_concat_got (notes : List QueueNote) (answer : Taken) :
    CameBack (notes ++ [.got answer]) ↔ ∀ i, answer ≠ .item i := by
  simp [CameBack, answer?]

theorem cameBack_concat {n : QueueNote} (h : n.answer? = none) (notes : List QueueNote) :
    CameBack (notes ++ [n]) ↔ CameBack notes := by
  simp [CameBack, h]

end QueueNote

structure QueueUse where
  queue : PacketQueue := {}
  stop : Bool := false

namespace QueueUse

def look (u : QueueUse) : Taken × PacketQueue := u.queue.take u.stop

def act (u : QueueUse) : QueueAct → QueueNote × QueueUse
  | .put i => (.put i, { u with queue := u.queue.put i })
  | .get => (.got u.look.1, { u with queue := u.look.2 })
  | .flush => (.ended, { u with queue := u.queue.flush })
  | .clear => (.cleared, { u with queue := u.queue.clear })
  | .setStop on => (.stopSet on, { u with stop := on })

def run (u : QueueUse) (acts : List QueueAct) : QueueUse := acts.foldl (fun u a => (u.act a).2) u

def history (u : QueueUse) : List QueueAct → List QueueNote
  | [] => []
  | a :: acts => (u.act a).1 :: (u.act a).2.history acts

/-- The queue agrees with what was done to it. -/
structure Agrees (u : QueueUse) (notes : List QueueNote) : Prop where
  counted : u.queue.Counted
  order : (QueueNote.recent notes).filterMap QueueNote.gotItem? ++ u.queue.items =
    (QueueNote.recent notes).filterMap QueueNote.putItem?
  ends : u.queue.flushing = true ↔ .ended ∈ notes
  away : u.queue.busy = false ↔ QueueNote.CameBack notes

variable {u : QueueUse} {notes : List QueueNote}

/-! ## What the consumer is told -/

theorem look_item_iff (u : QueueUse) (i : QueueItem) :
    u.look.1 = .item i ↔ u.stop = false ∧ u.queue.items.head? = some i := by
  rw [look, PacketQueue.take_fst]
  cases u.stop <;> cases u.queue.items <;> cases u.queue.flushing <;> simp

theorem look_flushed_iff (u : QueueUse) :
    u.look.1 = .flushed ↔ u.stop = false ∧ u.queue.items = [] ∧ u.queue.flushing = true := by
  rw [look, PacketQueue.take_fst]
  cases u.stop <;> cases u.queue.items <;> cases u.queue.flushing <;> simp

theorem look_nothing_iff (u : QueueUse) :
    u.look.1 = .nothing ↔ u.stop = false ∧ u.queue.items = [] ∧ u.queue.flushing = false := by
  rw [look, PacketQueue.take_fst]
  cases u.stop <;> cases u.queue.items <;> cases u.queue.flushing <;> simp

theorem look_stopped_iff (u : QueueUse) : u.look.1 = .stopped ↔ u.stop = true := by
  rw [look, PacketQueue.take_fst]
  cases u.stop <;> cases u.queue.items <;> cases u.queue.flushing <;> simp

theorem busy_look_iff (u : QueueUse) : u.look.2.busy = false ↔ ∀ i, u.look.1 ≠ .item i := by
  refine ⟨fun hb i hi => ?_, PacketQueue.busy_take_of_ne⟩
  rw [look, PacketQueue.busy_take hi] at hb
  cases hb

theorem items_look (u : QueueUse) : u.queue.items = (QueueNote.got u.look.1).gotItem?.toList ++ u.look.2.items := by
  rw [look, PacketQueue.take_fst, PacketQueue.items_take]
  cases u.stop <;> cases u.queue.items <;> cases u.queue.flushing <;> rfl

theorem look_after_nothing (h : u.look.1 = .nothing) (a : QueueAct) :
    ((u.act .get).2.act a).2.look.1 = a.answer := by
  obtain ⟨hs, hitems, hf⟩ := u.look_nothing_iff.1 h
  have hflushing : u.look.2.flushing = false := (PacketQueue.flushing_take u.queue u.stop).trans hf
  have hempty : u.look.2.items = [] := by
    rw [look, PacketQueue.items_take, hs, hitems]
    rfl
  cases a with
  | put i => exact (look_item_iff _ i).2 ⟨hs, by simp [act, hempty]⟩
  | get =>
    refine (look_nothing_iff _).2 ⟨hs, ?_, ?_⟩
    · simp [act, look, PacketQueue.items_take, hs, hitems]
    · simp [act, look, PacketQueue.flushing_take, hf]
  | flush => exact (look_flushed_iff _).2 ⟨hs, hempty, rfl⟩
  | clear => exact (look_nothing_iff _).2 ⟨hs, rfl, hflushing⟩
  | setStop on =>
    cases on with
    | true => exact (look_stopped_iff _).2 rfl
    | false => exact (look_nothing_iff _).2 ⟨rfl, hempty, hflushing⟩

/-- A queue that ends gives up all its items before it says so. -/
theorem drains (hs : u.stop = false) (hf : u.queue.flushing = true) :
    u.history (List.replicate (u.queue.items.length + 1) .get) =
      u.queue.items.map (fun i => .got (.item i)) ++ [.got .flushed] := by
  generalize hitems : u.queue.items = items
  induction items generalizing u with
  | nil =>
    have hl := u.look_flushed_iff.2 ⟨hs, hitems, hf⟩
    simp [history, act, hl]
  | cons i rest ih =>
    have hl := (u.look_item_iff i).2 ⟨hs, by rw [hitems]; rfl⟩
    have hrest : u.look.2.items = rest := by
      rw [look, PacketQueue.items_take, hs, hitems]
      rfl
    have hgoes := ih (u := (u.act .get).2) hs ((u.queue.flushing_take u.stop).trans hf) hrest
    rw [List.length_cons, List.replicate_succ, history, hgoes, act, hl]
    rfl

/-! ## The queue and its history -/

theorem agrees_start : ({} : QueueUse).Agrees [] :=
  ⟨rfl, rfl, by simp, by simp [QueueNote.CameBack]⟩

theorem Agrees.order_concat (h : u.Agrees notes) {n : QueueNote} (hn : n ≠ .cleared) {items : List QueueItem}
    (hitems : n.gotItem?.toList ++ items = u.queue.items ++ n.putItem?.toList) :
    (QueueNote.recent (notes ++ [n])).filterMap QueueNote.gotItem? ++ items =
      (QueueNote.recent (notes ++ [n])).filterMap QueueNote.putItem? := by
  rw [QueueNote.recent_concat, if_neg hn, List.filterMap_append, List.filterMap_append, ← h.order, List.append_assoc,
    List.append_assoc]
  exact congrArg (_ ++ ·) hitems

/-- **Every act keeps the queue in agreement with its history.** -/
theorem Agrees.act (h : u.Agrees notes) (a : QueueAct) : (u.act a).2.Agrees (notes ++ [(u.act a).1]) := by
  cases a with
  | put i =>
    refine ⟨PacketQueue.counted_put h.counted i, h.order_concat QueueNote.noConfusion ?_, ?_, ?_⟩
    · exact u.queue.items_put i
    · simpa [QueueUse.act, PacketQueue.put] using h.ends
    · exact h.away.trans (QueueNote.cameBack_concat rfl notes).symm
  | get =>
    refine ⟨PacketQueue.counted_take h.counted u.stop, h.order_concat QueueNote.noConfusion ?_, ?_, ?_⟩
    · exact u.items_look.symm.trans (List.append_nil _).symm
    · simpa [QueueUse.act, look, PacketQueue.flushing_take] using h.ends
    · exact u.busy_look_iff.trans (QueueNote.cameBack_concat_got notes _).symm
  | flush =>
    refine ⟨h.counted, h.order_concat QueueNote.noConfusion ?_, ?_, ?_⟩
    · exact (List.append_nil _).symm
    · simp [QueueUse.act, PacketQueue.flush]
    · exact h.away.trans (QueueNote.cameBack_concat rfl notes).symm
  | clear =>
    refine ⟨rfl, ?_, ?_, ?_⟩
    · simp [QueueUse.act, QueueNote.recent_concat]
    · simpa [QueueUse.act, PacketQueue.clear] using h.ends
    · exact h.away.trans (QueueNote.cameBack_concat rfl notes).symm
  | setStop on =>
    refine ⟨h.counted, h.order_concat QueueNote.noConfusion ?_, ?_, ?_⟩
    · exact (List.append_nil _).symm
    · simpa [QueueUse.act] using h.ends
    · exact h.away.trans (QueueNote.cameBack_concat rfl notes).symm

theorem Agrees.run (h : u.Agrees notes) (acts : List QueueAct) :
    (u.run acts).Agrees (notes ++ u.history acts) := by
  induction acts generalizing u notes with
  | nil => rwa [history, List.append_nil]
  | cons a acts ih =>
    have hrest := ih (h.act a)
    rwa [List.append_assoc] at hrest

/-- A queue that is idle is idle until something is put. -/
theorem idle_run (h : u.queue.isIdle = true) {acts : List QueueAct} (hput : ∀ i, QueueAct.put i ∉ acts) :
    (u.run acts).queue.isIdle = true := by
  induction acts generalizing u with
  | nil => exact h
  | cons a acts ih =>
    refine ih ?_ (fun i hi => hput i (List.mem_cons_of_mem a hi))
    cases a with
    | put i => exact absurd List.mem_cons_self (hput i)
    | get => exact PacketQueue.isIdle_take h u.stop
    | flush => exact h
    | clear => exact PacketQueue.isIdle_iff _ |>.2 ⟨rfl, (u.queue.isIdle_iff.1 h).2⟩
    | setStop on => exact h

end QueueUse

/-- **A queue agrees with its history.**  After any acts of any threads on a new queue: the byte count is that of the
items, and an item that is taken has never more bytes than are counted; what the consumer got since the last clear and
what is queued are what was put since, in this order; the consumer is told that it is stopped exactly if the stop flag
is set, and then the queue keeps its items; otherwise it gets the head, it is told of the end exactly if nothing is
queued and the queue was ended, and a queue that was ended gives up all its items before; a consumer that waits is told
what the next act brings, which is nothing only if that puts nothing, does not end the queue and does not stop the
consumer; the queue is idle exactly if nothing is queued and the consumer has come back since its last item, and stays
so until something is put. -/
theorem PacketQueue.agrees_with_history (acts : List QueueAct) :
    let u := ({} : QueueUse).run acts
    let notes := ({} : QueueUse).history acts
    let recent := QueueNote.recent notes
    u.queue.bytes = QueueItem.total u.queue.items ∧
    (∀ i, u.look.1 = .item i → i.size ≤ u.queue.bytes ∧ u.look.2.bytes + i.size = u.queue.bytes) ∧
    recent.filterMap QueueNote.gotItem? ++ u.queue.items = recent.filterMap QueueNote.putItem? ∧
    (u.look.1 = .stopped ↔ u.stop = true) ∧ (u.stop = true → u.look.2 = { u.queue with busy := false }) ∧
    (∀ i, u.look.1 = .item i ↔ u.stop = false ∧ u.queue.items.head? = some i) ∧
    (u.look.1 = .flushed ↔ u.stop = false ∧ u.queue.items = [] ∧ .ended ∈ notes) ∧
    (u.stop = false → .ended ∈ notes →
      u.history (List.replicate (u.queue.items.length + 1) .get) =
        u.queue.items.map (fun i => .got (.item i)) ++ [.got .flushed]) ∧
    (u.look.1 = .nothing → ∀ a, ((u.act .get).2.act a).2.look.1 = a.answer) ∧
    (u.queue.isIdle = true ↔ u.queue.items = [] ∧ QueueNote.CameBack notes) ∧
    (u.queue.isIdle = true → ∀ more, (∀ i, QueueAct.put i ∉ more) → (u.run more).queue.isIdle = true) := by
  intro u notes recent
  have agrees : u.Agrees notes := QueueUse.agrees_start.run acts
  refine ⟨agrees.counted, fun i hi => ?_, agrees.order, u.look_stopped_iff, fun hs => ?_, u.look_item_iff, ?_,
    fun hs he => QueueUse.drains hs (agrees.ends.2 he), fun h a => QueueUse.look_after_nothing h a, ?_,
    fun h more hput => QueueUse.idle_run h hput⟩
  · have hitems : u.queue.items = i :: u.look.2.items := by
      rw [u.items_look, hi]
      rfl
    have hbytes : u.queue.bytes = i.size + u.look.2.bytes := by
      rw [agrees.counted, hitems, show u.look.2.bytes = _ from counted_take agrees.counted u.stop]
      rfl
    omega
  · rw [QueueUse.look, hs, take_stopped]
  · rw [u.look_flushed_iff, agrees.ends]
  · rw [isIdle_iff, agrees.away]

end Playhead
