import Playhead.Fifo
import Playhead.Image
/-!
# FrameChannel — copies of shown pictures, sent to another thread

Sending never waits: a channel that is full, or that nobody reads any more, drops the new frame.
-/
namespace Playhead

structure FrameChannel where
  /-- How many frames may wait; no limit if absent. -/
  limit : Option Nat := none
  queued : Fifo VideoFrame := {}
  connected : Bool := true
deriving Inhabited

namespace FrameChannel

def waiting (c : FrameChannel) : List VideoFrame := c.queued.toList

def hasRoom (c : FrameChannel) : Bool :=
  match c.limit with
  | none => true
  | some n => decide (c.queued.length < n)

def send (c : FrameChannel) (f : VideoFrame) : FrameChannel :=
  if c.connected && c.hasRoom then { c with queued := c.queued.push f } else c

def receive (c : FrameChannel) : Option VideoFrame × FrameChannel :=
  match c.queued.pop? with
  | none => (none, c)
  | some (f, queued) => (some f, { c with queued })

def disconnect (c : FrameChannel) : FrameChannel := { c with connected := false, queued := {} }

theorem waiting_send (c : FrameChannel) (f : VideoFrame) :
    (c.send f).waiting = if c.connected && c.hasRoom then c.waiting ++ [f] else c.waiting := by
  unfold send
  split
  · exact c.queued.toList_push f
  · rfl

end FrameChannel
end Playhead
