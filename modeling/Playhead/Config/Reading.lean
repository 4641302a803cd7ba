import Playhead.Config
import Playhead.Json.Fields
import Playhead.Json.Reader
/-!
# Reading — settings out of JSON text

Absent fields keep their defaults.  A text that is not a record of settings is one kind of error, settings that a
player can not work with another, and the first is found before the second.
-/
namespace Playhead

namespace SyncMode

def name : SyncMode → String
  | .auto => "auto"
  | .video => "video"
  | .audio => "audio"
  | .external => "external"

def table : List (String × SyncMode) := [auto, video, audio, external].map (fun m => (m.name, m))

end SyncMode

namespace Config

/-- A record of settings, by key or in the order of the fields. -/
def ofValue? (v : Json.Value) : Option Config := do
  let f ← Json.Fields.ofValue? 9 v
  let preset : Config := {}
  return {
    audioQueueLimit := ← f.read 0 "audio_queue_limit" Json.Value.word? (some preset.audioQueueLimit)
    videoQueueLimit := ← f.read 1 "video_queue_limit" Json.Value.word? (some preset.videoQueueLimit)
    pictureCapacity := ← f.read 2 "picture_queue_size" Json.Value.word? (some preset.pictureCapacity)
    threshold := ← f.read 3 "display_threshold" Json.Value.real? (some preset.threshold)
    sync := ← f.read 4 "sync_mode" (Json.Value.choice? SyncMode.table) (some preset.sync)
    backpressureMs := ← f.read 5 "backpressure_wait_ms" Json.Value.word? (some preset.backpressureMs)
    queuePollMs := ← f.read 6 "queue_poll_ms" Json.Value.word? (some preset.queuePollMs)
    picturePollMs := ← f.read 7 "picture_poll_ms" Json.Value.word? (some preset.picturePollMs)
    endPollMs := ← f.read 8 "eof_poll_ms" Json.Value.word? (some preset.endPollMs) }

def ofText (text : String) : Except PlayError Config :=
  match (Json.read text).bind ofValue? with
  | none => .error .unreadableConfig
  | some c =>
    match c.validate with
    | .error e => .error e
    | .ok () => .ok c

def ofFile (bytes : Option ByteArray) : Except PlayError Config :=
  match bytes with
  | none => .error (.io .missing)
  | some bytes =>
    match String.fromUTF8? bytes with
    | none => .error (.io .notText)
    | some text => ofText text

end Config
end Playhead
