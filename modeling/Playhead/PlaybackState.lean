/-!
# PlaybackState — the states of a player as its user sees them
-/
namespace Playhead

inductive PlaybackState
  | uninitialized | opened | playing | paused | closed
deriving DecidableEq, Repr, Inhabited

end Playhead
