import Playhead.Image
import Playhead.Json.Fields
import Playhead.Json.Reader
import Playhead.PlaybackState
import Playhead.Stream
/-!
# Reading — states, media and frames out of JSON text

Records without defaults: every field has to be there.
-/
namespace Playhead

def PlaybackState.name : PlaybackState → String
  | .uninitialized => "uninitialized"
  | .opened => "open"
  | .playing => "playing"
  | .paused => "paused"
  | .closed => "closed"

def PlaybackState.table : List (String × PlaybackState) :=
  [.uninitialized, .opened, .playing, .paused, .closed].map (fun s => (s.name, s))

def PixelFormat.name : PixelFormat → String
  | .rgba => "RGBA"

def PixelFormat.table : List (String × PixelFormat) := [(PixelFormat.rgba.name, .rgba)]

def choiceOfText? (table : List (String × α)) (text : String) : Option α :=
  (Json.read text).bind (Json.Value.choice? table)

def maxWord32 : Nat := Nat.pow 2 32 - 1

def maxWord16 : Nat := Nat.pow 2 16 - 1

def MediaInfo.ofText? (text : String) : Option MediaInfo := do
  let f ← Json.Fields.ofValue? 8 (← Json.read text)
  return {
    duration := ← f.read 0 "duration" Json.Value.real? none
    width := ← f.read 1 "width" (Json.Value.natural? maxWord32) none
    height := ← f.read 2 "height" (Json.Value.natural? maxWord32) none
    fps := ← f.read 3 "fps" Json.Value.real? none
    videoCodec := ← f.read 4 "video_codec" Json.Value.text? none
    audioCodec := ← f.read 5 "audio_codec" Json.Value.text? none
    sampleRate := ← f.read 6 "sample_rate" (Json.Value.natural? maxWord32) none
    channels := ← f.read 7 "channels" (Json.Value.natural? maxWord16) none }

def VideoFrame.ofText? (text : String) : Option VideoFrame := do
  let f ← Json.Fields.ofValue? 5 (← Json.read text)
  return {
    pts := ← f.read 0 "pts" Json.Value.real? none
    width := ← f.read 1 "width" (Json.Value.natural? maxWord32) none
    height := ← f.read 2 "height" (Json.Value.natural? maxWord32) none
    format := ← f.read 3 "format" (Json.Value.choice? PixelFormat.table) none
    data := ← f.read 4 "data" Json.Value.bytes? none }

end Playhead
