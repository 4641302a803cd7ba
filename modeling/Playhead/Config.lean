import Playhead.Error
import Playhead.MasterClock
import Playhead.Number.Decimal
/-!
# Config — the settings of a player, and which settings are refused
-/
namespace Playhead

/-- Limits are bytes, the threshold is seconds, intervals are milliseconds. -/
structure Config where
  audioQueueLimit : Nat := 81920
  videoQueueLimit : Nat := 1310720
  /-- How many decoded pictures may wait. -/
  pictureCapacity : Nat := 50
  /-- How far ahead of the clock a picture may be shown. -/
  threshold : Float := 0.03
  sync : SyncMode := .auto
  /-- How long the demuxer waits for room in a queue. -/
  backpressureMs : Nat := 10
  /-- How often a waiting consumer looks at the stop flag. -/
  queuePollMs : Nat := 10
  /-- How often a waiting producer does. -/
  picturePollMs : Nat := 1
  /-- The rest after a read that gave no packet. -/
  endPollMs : Nat := 10
deriving Repr, Inhabited

inductive ConfigFault
  | noPictures
  | noPackets
  | threshold (value : Float)
  | noInterval
deriving Repr

def ConfigFault.text : ConfigFault → String
  | .noPictures => "picture_queue_size 必须大于 0"
  | .noPackets => "包队列上限必须大于 0"
  | .threshold value => "display_threshold 无效: " ++ Number.shortest value
  | .noInterval => "轮询间隔必须大于 0"

namespace Config

/-- The first fault, in the order in which they are looked for.  A threshold that is not a number is no threshold. -/
def fault? (c : Config) : Option ConfigFault :=
  if c.pictureCapacity = 0 then some .noPictures
  else if c.audioQueueLimit = 0 ∨ c.videoQueueLimit = 0 then some .noPackets
  else if ¬ (0 ≤ c.threshold) then some (.threshold c.threshold)
  else if c.queuePollMs = 0 ∨ c.picturePollMs = 0 ∨ c.endPollMs = 0 ∨ c.backpressureMs = 0 then some .noInterval
  else none

def validate (c : Config) : Except PlayError Unit :=
  match c.fault? with
  | none => .ok ()
  | some fault => .error (.badConfig fault.text)

def intervalMicros (ms : Nat) : Nat := ms * 1000 % Nat.pow 2 64

def Usable (c : Config) : Prop :=
  c.pictureCapacity ≠ 0 ∧ c.audioQueueLimit ≠ 0 ∧ c.videoQueueLimit ≠ 0 ∧ 0 ≤ c.threshold ∧
    c.queuePollMs ≠ 0 ∧ c.picturePollMs ≠ 0 ∧ c.endPollMs ≠ 0 ∧ c.backpressureMs ≠ 0

/-- **Settings pass exactly if a player can work with them.** -/
theorem fault?_eq_none_iff (c : Config) : c.fault? = none ↔ c.Usable := by
  unfold fault? Usable
  grind

end Config
end Playhead
