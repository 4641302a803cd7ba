import Playhead.Bytes
import Playhead.TimeBase
/-!
# Packet — compressed packets, and what a packet queue holds
-/
namespace Playhead

structure Packet where
  stream : Nat
  pts : Option Ticks := none
  dts : Option Ticks := none
  duration : Ticks := 0
  data : ByteArray := .empty
deriving DecidableEq, Inhabited

def Packet.size (p : Packet) : Nat := p.data.size

/-- A packet, or the marker that a seek leaves at the start of a new timeline.  The marker carries the time it starts
at, in ticks of its queue's stream. -/
inductive QueueItem
  | packet (p : Packet)
  | marker (start : Ticks)
deriving DecidableEq, Inhabited

namespace QueueItem

/-- What an item adds to the byte count of its queue; a marker adds nothing. -/
def size : QueueItem → Nat
  | .packet p => p.size
  | .marker _ => 0

def isMarker : QueueItem → Bool
  | .packet _ => false
  | .marker _ => true

def total (items : List QueueItem) : Nat := items.foldr (fun i rest => i.size + rest) 0

theorem total_append_singleton (items : List QueueItem) (i : QueueItem) :
    total (items ++ [i]) = total items + i.size := by
  induction items with
  | nil => exact Nat.add_comm i.size 0
  | cons j items ih =>
    change j.size + total (items ++ [i]) = j.size + total items + i.size
    rw [ih, Nat.add_assoc]

end QueueItem

end Playhead
