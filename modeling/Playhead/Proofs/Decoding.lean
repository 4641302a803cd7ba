import Playhead.Decoder
import Playhead.TestPattern.Codec
/-!
# Decoding — what should come out of a decode worker

What a codec promises (`CodecContract`), and which pictures packets should come to when they are sent to a codec one
after the other, with nobody else there and a slot for every picture (`Decoded`).  The promise of the codec makes every
frame of such a decoding a frame of one of its packets (`Decoded.of_packet`).
-/
namespace Playhead

variable {K : Type} [VideoCodec K]

/-- The buffers that go round between a worker and the ring: fresh ones, and what conversions have left in them. -/
inductive Buffer (K : Type) [VideoCodec K] : Image → Prop
  | fresh : Buffer K {}
  | converted (k : K) {image : Image} (h : Buffer K image) : Buffer K (VideoCodec.convert k image).2.1

/-- A codec that was given these packets and nothing else, and from which frames were received and converted. -/
inductive Fed (opened : K) : List Packet → K → Prop
  | opened : Fed opened [] opened
  | send {ps : List Packet} {k k' : K} {p : Packet} (h : Fed opened ps k)
      (hs : VideoCodec.send k p = (.ok (), k')) : Fed opened (ps ++ [p]) k'
  | receive {ps : List Packet} {k k' : K} {f : Option FrameInfo} (h : Fed opened ps k)
      (hr : VideoCodec.receive k = (.ok f, k')) : Fed opened ps k'
  | convert {ps : List Packet} {k k' : K} {buffer image : Image} (h : Fed opened ps k) (hb : Buffer K buffer)
      (hc : VideoCodec.convert k buffer = (.ok (), image, k')) : Fed opened ps k'

/-- **What a codec promises**: behind a flush no frame of an earlier packet comes out, and what is converted is the
frame received last. -/
structure CodecContract (K : Type) [VideoCodec K] where
  /-- No frame is left in the codec. -/
  fresh : K → Prop
  /-- A packet holds this frame, which looks like this. -/
  holds : Packet → FrameInfo → Image → Prop
  /-- What the frame received last looks like. -/
  look : K → Image
  fresh_flush : ∀ {k k' : K}, VideoCodec.flush k = some k' → fresh k'
  received : ∀ {k₀ k k' : K} {ps : List Packet} {f : FrameInfo}, fresh k₀ → Fed k₀ ps k →
    VideoCodec.receive k = (.ok (some f), k') → ∃ p ∈ ps, holds p f (look k')
  converted : ∀ {k₀ k k' k'' : K} {ps : List Packet} {f : FrameInfo} {buffer image : Image}, fresh k₀ → Fed k₀ ps k →
    VideoCodec.receive k = (.ok (some f), k') → Buffer K buffer →
    VideoCodec.convert k' buffer = (.ok (), image, k'') → image = look k'

/-- Where a decoding stands: the codec, the time at which the next frame is expected, and the time before which frames
are not shown. -/
structure Line (K : Type) where
  codec : K
  clock : Float := 0
  skipBefore : Option Float := none

namespace Line

omit [VideoCodec K]

def timeOf (l : Line K) (stream : StreamInfo) (f : FrameInfo) : Float :=
  match f.timestamp with
  | some t => stream.timeBase.seconds t
  | none => l.clock

def timeBehind (l : Line K) (stream : StreamInfo) (f : FrameInfo) : Float :=
  l.timeOf stream f + (stream.frameDuration + Float.ofInt f.repeats.toInt * (stream.frameDuration * 0.5))

def skips (l : Line K) (stream : StreamInfo) (f : FrameInfo) : Bool :=
  l.skipBefore.any (fun t => l.timeOf stream f + Decoder.tolerance < t)

/-- A timeline is opened by the seek to a position, or by the start of the session. -/
def Opens (l : Line K) (contract : CodecContract K) (stream : StreamInfo) (codec : K) : Option Ticks → Prop
  | none => l = { codec }
  | some us =>
    contract.fresh l.codec ∧ l.clock = stream.timeBase.seconds (stream.timeBase.rescale us .micros) ∧
      l.skipBefore = some l.clock

end Line

/-- A frame that is shown: what the codec says about it, its time, and what it looks like. -/
structure Accepted where
  info : FrameInfo
  pts : Float
  look : Image

def Accepted.picture (a : Accepted) : Picture := ⟨a.pts, a.look⟩

/-- **The frames that packets come to**, in the order in which they are decoded; `inside` tells that there may be more
in the packet sent last. -/
inductive Decoded (contract : CodecContract K) (stream : StreamInfo) (start : Line K) :
    List Packet → List Accepted → (inside : Bool) → Line K → Prop
  | start : Decoded contract stream start [] [] false start
  | send {ps : List Packet} {frames : List Accepted} {l : Line K} {p : Packet} {k : K}
      (h : Decoded contract stream start ps frames false l) (hs : VideoCodec.send l.codec p = (.ok (), k)) :
      Decoded contract stream start (ps ++ [p]) frames true { l with codec := k }
  /-- A frame that is too early is received and thrown away. -/
  | skip {ps : List Packet} {frames : List Accepted} {l : Line K} {f : FrameInfo} {k : K}
      (h : Decoded contract stream start ps frames true l) (hr : VideoCodec.receive l.codec = (.ok (some f), k))
      (hf : l.skips stream f = true) :
      Decoded contract stream start ps frames true ⟨k, l.timeBehind stream f, l.skipBefore⟩
  /-- With the first frame that is not too early skipping is over. -/
  | accept {ps : List Packet} {frames : List Accepted} {l : Line K} {f : FrameInfo} {k k' : K} {buffer image : Image}
      (h : Decoded contract stream start ps frames true l) (hr : VideoCodec.receive l.codec = (.ok (some f), k))
      (hf : l.skips stream f = false) (hb : Buffer K buffer) (hc : VideoCodec.convert k buffer = (.ok (), image, k')) :
      Decoded contract stream start ps (frames ++ [⟨f, l.timeOf stream f, contract.look k⟩]) true
        ⟨k', l.timeBehind stream f, none⟩
  | done {ps : List Packet} {frames : List Accepted} {l : Line K} {k : K}
      (h : Decoded contract stream start ps frames true l) (hr : VideoCodec.receive l.codec = (.ok none, k)) :
      Decoded contract stream start ps frames false { l with codec := k }

namespace Decoded

variable {contract : CodecContract K} {stream : StreamInfo} {start l : Line K} {ps : List Packet}
  {frames : List Accepted} {inside : Bool}

theorem fed (h : Decoded contract stream start ps frames inside l) : Fed start.codec ps l.codec := by
  induction h with
  | start => exact .opened
  | send _ hs ih => exact ih.send hs
  | skip _ hr _ ih => exact ih.receive hr
  | accept _ hr _ hb hc ih => exact (ih.receive hr).convert hb hc
  | done _ hr ih => exact ih.receive hr

/-- **Every frame that is shown is a frame of one of the packets**, if no frame was left in the codec at the start. -/
theorem of_packet (h : Decoded contract stream start ps frames inside l) (hfresh : contract.fresh start.codec) :
    ∀ a ∈ frames, ∃ p ∈ ps, contract.holds p a.info a.look := by
  induction h with
  | start => exact fun _ ha => by cases ha
  | send _ _ ih =>
    intro a ha
    obtain ⟨p, hp, hh⟩ := ih a ha
    exact ⟨p, List.mem_append_left _ hp, hh⟩
  | skip _ _ _ ih => exact ih
  | accept h hr _ _ _ ih =>
    intro a ha
    rcases List.mem_append.1 ha with ha | ha
    · exact ih a ha
    · rw [List.mem_singleton.1 ha]
      exact contract.received hfresh h.fed hr
  | done _ _ ih => exact ih

end Decoded

/-! ## The codec of the test pattern keeps the promise -/

namespace TestPattern

def frameNumber (p : Packet) : Nat := Bytes.ofLittleEndian (Bytes.leading 8 p.data)

namespace Codec

theorem whole_of_buffer {image : Image} (h : Buffer Codec image) : image.Whole := by
  induction h with
  | fresh => exact Image.whole_default
  | converted k _ ih => exact Image.whole_fill (Image.whole_resize ih k.width k.height) (colorOf k.current)

theorem pending_of_fed {opened k : Codec} {ps : List Packet} (h : Fed opened ps k)
    (hopened : opened.pending.toList = []) : ∀ x ∈ k.pending.toList, ∃ p ∈ ps, x = (frameNumber p, p.pts) := by
  induction h with
  | opened =>
    intro x hx
    rw [hopened] at hx
    cases hx
  | @send ps k k' p h hs ih =>
    change k.send p = (.ok (), k') at hs
    unfold send at hs
    split at hs
    · cases hs
    · cases hs
      intro x hx
      rw [Fifo.toList_push] at hx
      rcases List.mem_append.1 hx with hx | hx
      · obtain ⟨q, hq, rfl⟩ := ih x hx
        exact ⟨q, List.mem_append_left _ hq, rfl⟩
      · rw [List.mem_singleton.1 hx]
        exact ⟨p, List.mem_append_right _ List.mem_cons_self, rfl⟩
  | @receive ps k k' f h hr ih =>
    change k.receive = (.ok f, k') at hr
    unfold receive at hr
    split at hr
    · cases hr
      exact ih
    · next frame pts pending hpop =>
      cases hr
      intro x hx
      exact ih x (by rw [Fifo.pop?_eq_some hpop]; exact List.mem_cons_of_mem _ hx)
  | convert h hb hc ih =>
    cases hc
    exact ih

/-- A packet holds the frame with its number and its time stamp, in the colour of the number. -/
def contract : CodecContract Codec where
  fresh k := k.pending.toList = []
  holds p f look := f.timestamp = p.pts ∧ look = .plain f.width f.height (colorOf (frameNumber p))
  look k := .plain k.width k.height (colorOf k.current)
  fresh_flush h := by
    cases h
    rfl
  received {k₀ k k' ps f} hfresh hfed hr := by
    change k.receive = (.ok (some f), k') at hr
    unfold receive at hr
    split at hr
    · cases hr
    · next frame pts pending hpop =>
      cases hr
      obtain ⟨p, hp, he⟩ := pending_of_fed hfed hfresh (frame, pts)
        (by rw [Fifo.pop?_eq_some hpop]; exact List.mem_cons_self)
      cases he
      exact ⟨p, hp, rfl, rfl⟩
  converted _ _ _ hb hc := by
    cases hc
    exact Image.paint_of_whole (whole_of_buffer hb) _ _ _

end Codec
end TestPattern
end Playhead
