/-!
# MasterClock — which clock decides what is shown

A session follows one clock from start to end.  Which one follows from the mode that was asked for and the streams
that are played.
-/
namespace Playhead

inductive SyncMode
  | auto | video | audio | external
deriving DecidableEq, Repr, Inhabited

/-- The clock that is followed: the pictures themselves, the audio decoder, or the wall clock. -/
inductive MasterClock
  | video | audio | external
deriving DecidableEq, Repr, Inhabited

/-- The choice when no mode forces one: audio wherever there is audio. -/
def MasterClock.natural (hasVideo hasAudio : Bool) : MasterClock :=
  if hasAudio then .audio else if hasVideo then .video else .external

/-- A forced mode is followed if its stream is there; otherwise the natural choice holds. -/
def MasterClock.select (mode : SyncMode) (hasVideo hasAudio : Bool) : MasterClock :=
  match mode with
  | .external => .external
  | .video => if hasVideo then .video else natural hasVideo hasAudio
  | .audio => if hasAudio then .audio else natural hasVideo hasAudio
  | .auto => natural hasVideo hasAudio

end Playhead
