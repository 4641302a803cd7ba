/-!
# Fifo — a queue of two lists

Items go in at one end and come out at the other, both in constant time on the average.  `Fifo.toList` is the queue as
a list, oldest item first, and every operation is stated through it (`toList_push`, `pop?_eq_some`, `pop?_eq_none`).
-/
namespace Playhead

structure Fifo (α : Type) where
  front : List α := []
  /-- The newer items, newest first. -/
  back : List α := []
deriving DecidableEq, Repr, Inhabited

namespace Fifo

variable {α : Type}

def toList (q : Fifo α) : List α := q.front ++ q.back.reverse

def ofList (xs : List α) : Fifo α := { front := xs }

def isEmpty (q : Fifo α) : Bool := q.front.isEmpty && q.back.isEmpty

def length (q : Fifo α) : Nat := q.front.length + q.back.length

def push (q : Fifo α) (a : α) : Fifo α := { q with back := a :: q.back }

def pop? (q : Fifo α) : Option (α × Fifo α) :=
  match q.front with
  | a :: front => some (a, { q with front })
  | [] =>
    match q.back.reverse with
    | a :: front => some (a, ofList front)
    | [] => none

@[simp] theorem toList_empty : ({} : Fifo α).toList = [] := rfl

@[simp] theorem toList_ofList (xs : List α) : (ofList xs).toList = xs := by simp [toList, ofList]

@[simp] theorem toList_push (q : Fifo α) (a : α) : (q.push a).toList = q.toList ++ [a] := by simp [toList, push]

@[simp] theorem length_toList (q : Fifo α) : q.toList.length = q.length := by simp [toList, length]

theorem isEmpty_iff (q : Fifo α) : q.isEmpty = true ↔ q.toList = [] := by simp [isEmpty, toList]

/-- **What comes out is the head of the list, and the tail of the list stays.** -/
theorem pop?_eq (q : Fifo α) :
    (q.pop?).map (fun p => (p.1, p.2.toList)) = q.toList.head?.map (fun a => (a, q.toList.tail)) := by
  rcases q with ⟨_ | ⟨a, front⟩, back⟩
  · simp only [pop?, toList, List.nil_append]
    rcases back.reverse with _ | ⟨a, rest⟩
    · rfl
    · simp [ofList]
  · simp [pop?, toList]

theorem pop?_eq_none {q : Fifo α} : q.pop? = none ↔ q.toList = [] := by
  have h := q.pop?_eq
  cases hp : q.pop? with
  | none =>
    rw [hp] at h
    cases hl : q.toList with
    | nil => exact iff_of_true rfl rfl
    | cons a rest => rw [hl] at h; cases h
  | some p =>
    rw [hp] at h
    cases hl : q.toList with
    | nil => rw [hl] at h; cases h
    | cons a rest => exact iff_of_false (by simp) (by simp)

theorem pop?_eq_some {q r : Fifo α} {a : α} (h : q.pop? = some (a, r)) : q.toList = a :: r.toList := by
  have he := q.pop?_eq
  rw [h] at he
  cases hl : q.toList with
  | nil => rw [hl] at he; cases he
  | cons b rest =>
    rw [hl] at he
    simp only [Option.map_some, List.head?_cons, List.tail_cons, Option.some.injEq, Prod.mk.injEq] at he
    rw [he.1, he.2]

end Fifo
end Playhead
