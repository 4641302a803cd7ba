import Playhead.Fifo
import Playhead.Packet
/-!
# PacketQueue — the queue between the demuxer and a consumer

Each function is one critical section of the queue's lock.  A consumer that has to wait is told so
(`Taken.nothing`) and asks again; the queue itself never blocks.  `PacketQueue.items` is the queue as a list, oldest
item first.
-/
namespace Playhead

structure PacketQueue where
  queued : Fifo QueueItem := {}
  /-- The bytes of the queued items, kept beside them. -/
  bytes : Nat := 0
  /-- No more items are awaited: an empty queue ends its consumer. -/
  flushing : Bool := false
  /-- The consumer took an item and has not come back for the next one. -/
  busy : Bool := false
deriving DecidableEq, Inhabited

inductive Taken
  | item (i : QueueItem)
  | flushed
  | stopped
  | nothing
deriving DecidableEq, Inhabited

namespace PacketQueue

def items (q : PacketQueue) : List QueueItem := q.queued.toList

def length (q : PacketQueue) : Nat := q.queued.length

def isEmpty (q : PacketQueue) : Bool := q.queued.isEmpty

def isIdle (q : PacketQueue) : Bool := q.isEmpty && !q.busy

def put (q : PacketQueue) (i : QueueItem) : PacketQueue :=
  { q with queued := q.queued.push i, bytes := q.bytes + i.size }

/-- The consumer comes for an item.  The stop flag goes before everything else, an item before the end of the queue. -/
def take (q : PacketQueue) (stop : Bool) : Taken × PacketQueue :=
  let q := { q with busy := false }
  if stop then (.stopped, q)
  else match q.queued.pop? with
    | some (i, queued) => (.item i, { q with queued, bytes := q.bytes - i.size, busy := true })
    | none => (if q.flushing then .flushed else .nothing, q)

def blocks (q : PacketQueue) (stop : Bool) : Bool := !stop && q.isEmpty && !q.flushing

/-- Ends the queue once it is empty; removes nothing. -/
def flush (q : PacketQueue) : PacketQueue := { q with flushing := true }

/-- Removes every item; what the consumer is at work on stays with it. -/
def clear (q : PacketQueue) : PacketQueue := { q with queued := {}, bytes := 0 }

def hasRoom (q : PacketQueue) (limit : Nat) : Bool := decide (q.bytes ≤ limit)

@[simp] theorem items_put (q : PacketQueue) (i : QueueItem) : (q.put i).items = q.items ++ [i] := by
  simp [items, put]

@[simp] theorem items_flush (q : PacketQueue) : q.flush.items = q.items := rfl

@[simp] theorem items_clear (q : PacketQueue) : q.clear.items = [] := rfl

theorem isEmpty_iff (q : PacketQueue) : q.isEmpty = true ↔ q.items = [] := q.queued.isEmpty_iff

/-- **What a consumer gets, and what stays**: nothing once the stop flag is set, otherwise the oldest item. -/
theorem take_of_cons {q : PacketQueue} {i : QueueItem} {rest : List QueueItem} (h : q.items = i :: rest) :
    (q.take false).1 = .item i ∧ (q.take false).2.items = rest := by
  unfold take
  cases hp : q.queued.pop? with
  | none =>
    have hn : q.items = [] := Fifo.pop?_eq_none.1 hp
    rw [hn] at h
    cases h
  | some p =>
    have hs : q.items = p.1 :: p.2.toList := Fifo.pop?_eq_some hp
    rw [h, List.cons.injEq] at hs
    simp [items, hp, hs.1, hs.2]

theorem take_of_nil {q : PacketQueue} (h : q.items = []) :
    (q.take false).1 = (if q.flushing then .flushed else .nothing) ∧ (q.take false).2.items = [] := by
  have hp : q.queued.pop? = none := Fifo.pop?_eq_none.2 h
  simp only [take, hp, Bool.false_eq_true, if_false]
  exact ⟨trivial, h⟩

theorem take_stopped (q : PacketQueue) : q.take true = (.stopped, { q with busy := false }) := rfl

theorem items_take (q : PacketQueue) (stop : Bool) :
    (q.take stop).2.items = if stop then q.items else q.items.tail := by
  cases stop with
  | true => rfl
  | false =>
    cases h : q.items with
    | nil => exact (take_of_nil h).2
    | cons i rest => exact (take_of_cons h).2

/-- What a consumer is told, by the queue as a list. -/
theorem take_fst (q : PacketQueue) (stop : Bool) :
    (q.take stop).1 =
      if stop then .stopped else q.items.head?.elim (if q.flushing then .flushed else .nothing) .item := by
  cases stop with
  | true => rfl
  | false =>
    cases h : q.items with
    | nil => exact (take_of_nil h).1
    | cons i rest => exact (take_of_cons h).1

theorem flushing_take (q : PacketQueue) (stop : Bool) : (q.take stop).2.flushing = q.flushing := by
  cases stop with
  | true => rfl
  | false =>
    simp only [take, Bool.false_eq_true, if_false]
    split <;> rfl

theorem blocks_iff (q : PacketQueue) (stop : Bool) : q.blocks stop = true ↔ (q.take stop).1 = .nothing := by
  cases stop with
  | true => simp [blocks, take_stopped]
  | false =>
    cases h : q.items with
    | nil =>
      have he := q.isEmpty_iff.2 h
      rw [(take_of_nil h).1]
      cases hf : q.flushing <;> simp [blocks, he, hf]
    | cons i rest =>
      have he : q.isEmpty = false := by
        rw [← Bool.not_eq_true, q.isEmpty_iff, h]
        exact List.cons_ne_nil i rest
      rw [(take_of_cons h).1]
      simp [blocks, he]

theorem isIdle_iff (q : PacketQueue) : q.isIdle = true ↔ q.items = [] ∧ q.busy = false := by
  rw [isIdle, Bool.and_eq_true, q.isEmpty_iff, Bool.not_eq_true']

theorem isIdle_take {q : PacketQueue} (h : q.isIdle = true) (stop : Bool) :
    (q.take stop).2.isIdle = true := by
  obtain ⟨hi, hb⟩ := q.isIdle_iff.1 h
  have hp : q.queued.pop? = none := Fifo.pop?_eq_none.2 hi
  rw [isIdle_iff, items_take, hi]
  refine ⟨by cases stop <;> rfl, ?_⟩
  cases stop with
  | true => rfl
  | false => simp [take, hp]

theorem busy_take {q : PacketQueue} {stop : Bool} {i : QueueItem} (h : (q.take stop).1 = .item i) :
    (q.take stop).2.busy = true := by
  cases stop with
  | true => cases h
  | false =>
    cases hp : q.queued.pop? with
    | none =>
      simp only [take, hp, Bool.false_eq_true, if_false] at h
      split at h <;> cases h
    | some r => simp [take, hp]

theorem busy_take_of_ne {q : PacketQueue} {stop : Bool} (h : ∀ i, (q.take stop).1 ≠ .item i) :
    (q.take stop).2.busy = false := by
  cases stop with
  | true => rfl
  | false =>
    cases hp : q.queued.pop? with
    | none => simp [take, hp]
    | some r => exact absurd (by simp [take, hp]) (h r.1)

def Counted (q : PacketQueue) : Prop := q.bytes = QueueItem.total q.items

theorem counted_put {q : PacketQueue} (h : q.Counted) (i : QueueItem) : (q.put i).Counted := by
  rw [Counted] at *
  rw [items_put, QueueItem.total_append_singleton, ← h]
  rfl

theorem counted_take {q : PacketQueue} (h : q.Counted) (stop : Bool) : (q.take stop).2.Counted := by
  rw [Counted] at *
  cases stop with
  | true => exact h
  | false =>
    rw [items_take]
    unfold take
    cases hp : q.queued.pop? with
    | none =>
      have hn : q.items = [] := Fifo.pop?_eq_none.1 hp
      rw [hn] at h
      simpa [hn, hp] using h
    | some p =>
      have hs : q.items = p.1 :: p.2.toList := Fifo.pop?_eq_some hp
      rw [hs] at h
      simp only [hp, hs, List.tail_cons, h, Bool.false_eq_true, if_false]
      exact Nat.add_sub_cancel_left p.1.size (QueueItem.total p.2.toList)

end PacketQueue
end Playhead
