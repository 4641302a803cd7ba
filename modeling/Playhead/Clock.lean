/-!
# Clock — a wall clock that can be paused and set

Instants and positions are nanoseconds.  The clock does not look at the time itself: each operation is given the
instant at which it happens.  `Clock.position` is the reading, and the operations are stated through it: `set` reads
back at once, pausing and resuming leave the reading as it is.
-/
namespace Playhead

structure Clock where
  /-- The instant from which a running clock counts. -/
  since : Nat := 0
  offset : Nat := 0
  /-- The position at which a paused clock stands. -/
  heldAt : Nat := 0
  paused : Bool := false
deriving DecidableEq, Repr, Inhabited

namespace Clock

def start (now : Nat) : Clock := { since := now }

def position (c : Clock) (now : Nat) : Nat :=
  if c.paused then c.heldAt else c.offset + (now - c.since)

/-- The position in whole microseconds, as a 64-bit count. -/
def micros (c : Clock) (now : Nat) : Nat := c.position now / 1000 % Nat.pow 2 64

/-- The position in seconds: the whole seconds and the rest of a second, each as a double. -/
def seconds (c : Clock) (now : Nat) : Float :=
  (c.position now / 1000000000).toFloat + (c.position now % 1000000000).toFloat / 1e9

/-- Sets the position in microseconds; a paused clock stays paused. -/
def set (c : Clock) (now micros : Nat) : Clock :=
  { c with since := now, offset := micros * 1000, heldAt := micros * 1000 }

/-- Pauses or resumes; asking for what already is changes nothing. -/
def setPaused (c : Clock) (now : Nat) (paused : Bool) : Clock :=
  if c.paused = paused then c
  else if paused then { c with heldAt := c.offset + (now - c.since), paused }
  else { c with since := now, offset := c.heldAt, paused }

@[simp] theorem paused_set (c : Clock) (now us : Nat) : (c.set now us).paused = c.paused := rfl

@[simp] theorem paused_setPaused (c : Clock) (now : Nat) (on : Bool) : (c.setPaused now on).paused = on := by
  unfold setPaused
  split
  · assumption
  · split <;> rfl

/-- **A clock that was set reads back**, running or paused. -/
theorem position_set (c : Clock) (now us : Nat) : (c.set now us).position now = us * 1000 := by
  simp [position, set]

/-- **Pausing and resuming lose and gain nothing**: at that instant the reading is what it was. -/
theorem position_setPaused (c : Clock) (now : Nat) (on : Bool) :
    (c.setPaused now on).position now = c.position now := by
  unfold setPaused position
  cases on <;> cases h : c.paused <;> simp [h]

theorem position_of_paused {c : Clock} (h : c.paused = true) (now : Nat) : c.position now = c.heldAt := by
  simp [position, h]

end Clock
end Playhead
