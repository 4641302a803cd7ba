/-!
# Error — what can go wrong, by cause, and the words for it
-/
namespace Playhead

inductive IoFault
  | missing
  | notText
  | other (text : String)
deriving DecidableEq, Repr, Inhabited

def IoFault.text : IoFault → String
  | .missing => "No such file or directory (os error 2)"
  | .notText => "stream did not contain valid UTF-8"
  | .other text => text

inductive PlayError
  | io (fault : IoFault)
  | cannotOpen (detail : String)
  | noStreams
  | unsupportedCodec (detail : String)
  | decoding (detail : String)
  | conversion (detail : String)
  | badConfig (detail : String)
  | unreadableConfig
  | worker (detail : String)
  | notInitialized
deriving DecidableEq, Repr, Inhabited

def PlayError.message : PlayError → String
  | .io fault => "IO 错误: " ++ fault.text
  | .cannotOpen detail => "无法打开媒体: " ++ detail
  | .noStreams => "没有可解码的音视频流"
  | .unsupportedCodec detail => "不支持的编解码器: " ++ detail
  | .decoding detail => "解码错误: " ++ detail
  | .conversion detail => "像素格式转换错误: " ++ detail
  | .badConfig detail => "配置错误: " ++ detail
  | .unreadableConfig => "配置解析错误"
  | .worker detail => "工作线程错误: " ++ detail
  | .notInitialized => "播放会话未初始化"

end Playhead
