import Playhead.Container
/-!
# Event — what collaborators notice of a session
-/
namespace Playhead

inductive Event
  | read (result : Outcome (Option Packet))
  | sought (us : Ticks)
  | audioRequested (stream : StreamInfo)
  | audioPaused (on : Bool)
  | audioReleased
  | codecReleased
  | containerReleased
  | sinkReleased

inductive Ending
  | finished
  | failed (e : PlayError)
  | died
deriving DecidableEq, Repr

end Playhead
