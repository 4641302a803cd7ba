import Playhead.Proofs.Decoding
import Playhead.Proofs.PatternRuns
/-!
# PatternPictures — the codec of the test pattern undoes its packets

A packet of the test pattern names its frame, unless it was cut short; the codec keeps the names of the packets it took
and gives them back first in, first out (`Codec.passes_run`).  What it paints is the frame that was received last,
whatever was sent or dropped behind it and whatever the buffer held before (`Source.Built.pictures`).
-/
namespace Playhead
namespace TestPattern

/-! ## Packets and the frames they name -/

namespace Source

variable {s : Source} {stream n : Nat}

theorem size_of_whole (h : s.corruptFrame ≠ some n) (hsize : 8 ≤ s.packetSize) :
    (s.videoPacket stream n).size = s.packetSize := by
  rw [videoPacket, Packet.size, if_neg h, ByteArray.size_append, List.size_toByteArray, Bytes.length_littleEndian,
    Bytes.size_zeros]
  exact Nat.add_sub_cancel' hsize

theorem size_of_corrupt (h : s.corruptFrame = some n) : (s.videoPacket stream n).size = 4 := by
  rw [videoPacket, Packet.size, if_pos h, ByteArray.size_extract, ByteArray.size_append, List.size_toByteArray,
    Bytes.length_littleEndian]
  omega

theorem short_iff (hsize : 8 ≤ s.packetSize) : (s.videoPacket stream n).size < 8 ↔ s.corruptFrame = some n := by
  by_cases h : s.corruptFrame = some n
  · exact iff_of_true (by rw [size_of_corrupt h]; decide) h
  · exact iff_of_false (by rw [size_of_whole h hsize]; exact Nat.not_lt.2 hsize) h

theorem frameNumber_videoPacket (h : s.corruptFrame ≠ some n) (hn : n < 2 ^ 64) :
    frameNumber (s.videoPacket stream n) = n := by
  have hlen := Bytes.length_littleEndian 8 n
  have hdata : (s.videoPacket stream n).data.data.toList =
      Bytes.littleEndian 8 n ++ (Bytes.zeros (s.packetSize - 8)).data.toList := by
    rw [videoPacket, if_neg h, Bytes.toList_append, List.data_toByteArray, List.toList_toArray]
  rw [frameNumber, Bytes.leading, ByteArray.data_extract, Array.toList_extract, hdata, List.extract_eq_take_drop,
    List.drop_zero, List.take_append_of_le_length (by omega), List.take_of_length_le (by omega),
    Bytes.ofLittleEndian_littleEndian 8 n hn]

theorem frameCount_le (s : Source) : s.frameCount ≤ 2 ^ 64 := by
  have hword := (s.duration * s.fps.toFloat).toUInt64.toNat_lt
  unfold frameCount Number.toNearestNat
  dsimp only
  split <;> omega

theorem audio_behind_video {video audio : Nat} (hv : s.videoIndex? = some video) (ha : s.audioIndex? = some audio) :
    video = 0 ∧ audio = 1 := by
  unfold videoIndex? at hv
  unfold audioIndex? at ha
  split at hv
  · next hvideo =>
    rw [if_pos hvideo] at ha
    split at ha
    · exact ⟨(Option.some.inj hv).symm, (Option.some.inj ha).symm⟩
    · cases ha
  · cases hv

/-- A packet of the video that was read from a source, at whatever moment. -/
def GivesVideo (s : Source) (p : Packet) : Prop :=
  s.videoIndex? = some p.stream ∧ ∃ uses, ((s.after uses).use .read).1 = .read (.ok (some p))

theorem ne_audioPacket {p : Packet} (hv : s.videoIndex? = some p.stream) {audio : Nat} (ha : s.audioIndex? = some audio)
    (n : Nat) : p ≠ s.audioPacket audio n := by
  intro hp
  obtain ⟨hvideo, haudio⟩ := audio_behind_video hv ha
  rw [hp] at hvideo
  change audio = 0 at hvideo
  omega

theorem frame_of_upcoming {p : Packet} (hv : s.videoIndex? = some p.stream) (hp : p ∈ s.upcoming) :
    ∃ n < s.frameCount, p = s.videoPacket p.stream n := by
  rcases List.mem_append.1 hp with hp | hp
  · unfold owed at hp
    split at hp
    · obtain ⟨audio, ha, he⟩ := List.mem_map.1 hp
      exact absurd he.symm (ne_audioPacket hv (Option.mem_toList.1 ha) _)
    · cases hp
  · obtain ⟨n, hn, hp⟩ := List.mem_flatMap.1 hp
    obtain ⟨i, hi, rfl⟩ := List.mem_range'.1 hn
    rcases List.mem_append.1 hp with hp | hp
    · obtain ⟨video, -, rfl⟩ := List.mem_map.1 hp
      exact ⟨_, by omega, rfl⟩
    · obtain ⟨audio, ha, he⟩ := List.mem_map.1 hp
      exact absurd he.symm (ne_audioPacket hv (Option.mem_toList.1 ha) _)

theorem Built.frame_of_givesVideo (h : s.Built) {p : Packet} (hp : s.GivesVideo p) :
    ∃ n < s.frameCount, p = s.videoPacket p.stream n := by
  obtain ⟨hv, uses, hread⟩ := hp
  obtain ⟨hof, -, hc⟩ := h.fresh.coherent.after uses
  by_cases hf : (s.after uses).failingRead = some (s.after uses).reads
  · rw [read_failing hf] at hread
    exact nomatch hread
  · rw [read_else hf] at hread
    have hup : { s.after uses with reads := (s.after uses).reads + 1 }.upcoming.head? = some p := by
      rw [← hc.takes.packet]
      injection hread with hread
      injection hread
    have hsame : s.Of { s.after uses with reads := (s.after uses).reads + 1 } := hof.trans rfl
    generalize ({ s.after uses with reads := (s.after uses).reads + 1 } : Source) = c at hup hsame
    have hcv : c.videoIndex? = some p.stream := by
      rw [hsame]
      exact hv
    obtain ⟨n, hn, he⟩ := frame_of_upcoming hcv (List.mem_of_mem_head? hup)
    rw [hsame.frameCount_eq] at hn
    rw [hsame] at he
    exact ⟨n, hn, he⟩

theorem Built.givesVideo_of_lt (h : s.Built) (hreads : s.failingRead = none) (hv : s.videoIndex? = some stream)
    (hn : n < s.frameCount) : s.GivesVideo (s.videoPacket stream n) := by
  have hmem : s.videoPacket stream n ∈ s.upcoming := by
    rw [upcoming_of_settled h.fresh.owed, h.fresh.position]
    refine List.mem_flatMap.2 ⟨n, List.mem_range'.2 ⟨n, by omega, by omega⟩, List.mem_append_left _ ?_⟩
    rw [hv]
    exact List.mem_cons_self
  obtain ⟨i, hi⟩ := List.mem_iff_getElem?.1 hmem
  have hreply := congrArg (·[i]?) (replies_reads h.fresh.coherent hreads (i + 1))
  simp only [getElem?_replies, List.getElem?_replicate, List.getElem?_map, List.getElem?_range (Nat.lt_succ_self i),
    Nat.lt_succ_self, if_true, Option.map_some, hi] at hreply
  exact ⟨hv, _, Option.some.inj hreply⟩

end Source

/-! ## What goes through the codec -/

namespace Codec

inductive Ask
  | send (p : Packet)
  | receive
  | convert (image : Image)
  | flush

inductive Answer
  | sent (result : Outcome Unit)
  | received (result : Outcome (Option FrameInfo))
  | converted (result : Outcome Unit) (image : Image)
  | flushed

def Answer.frame? : Answer → Option FrameInfo
  | .received (.ok f) => f
  | _ => none

def ask (k : Codec) : Ask → Answer × Codec
  | .send p => (.sent (k.send p).1, (k.send p).2)
  | .receive => (.received k.receive.1, k.receive.2)
  | .convert image => (.converted (k.convert image).1 (k.convert image).2.1, (k.convert image).2.2)
  | .flush => (.flushed, k.flush)

def after (k : Codec) : List Ask → Codec
  | [] => k
  | a :: asks => (k.ask a).2.after asks

def frames (k : Codec) : List Ask → List FrameInfo
  | [] => []
  | a :: asks => (k.ask a).1.frame?.toList ++ (k.ask a).2.frames asks

/-- The packets that are sent and are long enough to name a frame. -/
def accepted : List Ask → List Packet
  | [] => []
  | .send p :: asks => if p.size < 8 then accepted asks else p :: accepted asks
  | _ :: asks => accepted asks

def infoOf (k : Codec) (p : Packet) : FrameInfo := { width := k.width, height := k.height, timestamp := p.pts }

variable {k k' k'' : Codec}

theorem after_append (k : Codec) (asks more : List Ask) : k.after (asks ++ more) = (k.after asks).after more := by
  induction asks generalizing k with
  | nil => rfl
  | cons a asks ih => exact ih _

theorem infoOf_congr (hwidth : k'.width = k.width) (hheight : k'.height = k.height) : k'.infoOf = k.infoOf := by
  funext p
  rw [infoOf, infoOf, hwidth, hheight]

def Holds (k : Codec) (waiting : List Packet) : Prop :=
  k.pending.toList = waiting.map (fun p => (frameNumber p, p.pts))

theorem holds_flush (k : Codec) : k.flush.Holds [] := rfl

theorem send_short {p : Packet} (h : p.size < 8) (k : Codec) :
    k.send p = (.error (.decoding s!"包太短: {p.size} 字节"), k) := by
  rw [send, if_pos h]

/-- Nothing but a frame that is received, whose number it is then, comes between two states of a codec: of the packets
that were waiting and those that were added, some were taken and the rest is waiting. -/
structure Passes (k k' : Codec) (waiting added : List Packet) (frames : List FrameInfo) (took rest : List Packet) :
    Prop where
  order : waiting ++ added = took ++ rest
  holds : k'.Holds rest
  frames : frames = took.map k.infoOf
  current : k'.current = (took.getLast?.map frameNumber).getD k.current
  width : k'.width = k.width
  height : k'.height = k.height

theorem Passes.refl {waiting : List Packet} (h : k.Holds waiting) : Passes k k waiting [] [] [] waiting :=
  ⟨List.append_nil _, h, rfl, rfl, rfl, rfl⟩

theorem Passes.trans {waiting added added' took took' rest rest' : List Packet} {fs fs' : List FrameInfo}
    (h : Passes k k' waiting added fs took rest) (h' : Passes k' k'' rest added' fs' took' rest') :
    Passes k k'' waiting (added ++ added') (fs ++ fs') (took ++ took') rest' where
  order := by rw [← List.append_assoc, h.order, List.append_assoc, h'.order, List.append_assoc]
  holds := h'.holds
  frames := by rw [h.frames, h'.frames, infoOf_congr h.width h.height, List.map_append]
  current := by
    rw [h'.current, h.current, List.getLast?_append]
    cases took'.getLast? <;> rfl
  width := h'.width.trans h.width
  height := h'.height.trans h.height

theorem passes_ask {waiting : List Packet} (h : k.Holds waiting) {a : Ask} (ha : a ≠ .flush) :
    ∃ took rest, Passes k (k.ask a).2 waiting (accepted [a]) (k.ask a).1.frame?.toList took rest := by
  cases a with
  | flush => exact absurd rfl ha
  | convert image => exact ⟨[], waiting, .refl h⟩
  | send p =>
    rw [accepted, ask]
    by_cases hp : p.size < 8
    · rw [if_pos hp, send_short hp]
      exact ⟨[], waiting, .refl h⟩
    · rw [if_neg hp, send, if_neg hp]
      refine ⟨[], waiting ++ [p], rfl, ?_, rfl, rfl, rfl, rfl⟩
      rw [Holds, Fifo.toList_push, show k.pending.toList = _ from h, List.map_append]
      rfl
  | receive =>
    rw [show accepted [.receive] = [] from rfl, ask, receive]
    split
    · next hpop => exact ⟨[], waiting, .refl h⟩
    · next frame pts pending hpop =>
      have hlist := (Fifo.pop?_eq_some hpop).symm.trans h
      cases waiting with
      | nil => cases hlist
      | cons p waiting =>
        obtain ⟨hhead, hrest⟩ := List.cons.inj hlist
        cases hhead
        exact ⟨[p], waiting, List.append_nil _, hrest, rfl, rfl, rfl, rfl⟩

theorem accepted_cons (a : Ask) (asks : List Ask) : accepted (a :: asks) = accepted [a] ++ accepted asks := by
  cases a with
  | send p =>
    rw [accepted, accepted]
    split <;> rfl
  | receive | convert | flush => rfl

/-- **First in, first out**: until it is flushed, a codec gives the frames of the packets it was sent, in order. -/
theorem passes_run {waiting : List Packet} (h : k.Holds waiting) {asks : List Ask} (hasks : .flush ∉ asks) :
    ∃ took rest, Passes k (k.after asks) waiting (accepted asks) (k.frames asks) took rest := by
  induction asks generalizing k waiting with
  | nil => exact ⟨[], waiting, .refl h⟩
  | cons a asks ih =>
    obtain ⟨took, rest, hstep⟩ := passes_ask h (List.ne_of_not_mem_cons hasks).symm
    obtain ⟨took', rest', hrun⟩ := ih hstep.holds (List.not_mem_of_not_mem_cons hasks)
    rw [accepted_cons]
    exact ⟨_, _, hstep.trans hrun⟩

theorem mem_accepted {asks : List Ask} {p : Packet} (hp : p ∈ accepted asks) : .send p ∈ asks ∧ ¬ p.size < 8 := by
  induction asks with
  | nil => cases hp
  | cons a asks ih =>
    rw [accepted_cons] at hp
    rcases List.mem_append.1 hp with hp | hp
    · cases a with
      | send q =>
        rw [accepted] at hp
        split at hp
        · cases hp
        · next hq =>
          obtain rfl := List.mem_singleton.1 hp
          exact ⟨List.mem_cons_self, hq⟩
      | receive | convert | flush => cases hp
    · exact ⟨List.mem_cons_of_mem _ (ih hp).1, (ih hp).2⟩

theorem receive_eq {waiting : List Packet} (h : k.Holds waiting) :
    k.receive.1 = .ok (waiting.head?.map k.infoOf) := by
  rw [receive]
  split
  · next hpop =>
    have hlist := (Fifo.pop?_eq_none.1 hpop).symm.trans h
    rw [List.map_eq_nil_iff.1 hlist.symm]
    rfl
  · next frame pts pending hpop =>
    have hlist := (Fifo.pop?_eq_some hpop).symm.trans h
    cases waiting with
    | nil => cases hlist
    | cons p waiting =>
      cases (List.cons.inj hlist).1
      rfl

/-- What is asked of a codec changes neither the size of its pictures nor, unless a frame is received, the frame it
paints. -/
theorem look_ask (k : Codec) (a : Ask) : (k.ask a).2.width = k.width ∧ (k.ask a).2.height = k.height ∧
    ((k.ask a).1.frame? = none → (k.ask a).2.current = k.current) := by
  cases a with
  | flush | convert => exact ⟨rfl, rfl, fun _ => rfl⟩
  | send p =>
    rw [ask, send]
    split <;> exact ⟨rfl, rfl, fun _ => rfl⟩
  | receive =>
    rw [ask, receive]
    split
    · exact ⟨rfl, rfl, fun _ => rfl⟩
    · exact ⟨rfl, rfl, fun hf => absurd hf (Option.some_ne_none _)⟩

theorem look_after (k : Codec) (asks : List Ask) : (k.after asks).width = k.width ∧ (k.after asks).height = k.height ∧
    (k.frames asks = [] → (k.after asks).current = k.current) := by
  induction asks generalizing k with
  | nil => exact ⟨rfl, rfl, fun _ => rfl⟩
  | cons a asks ih =>
    obtain ⟨hwidth, hheight, hcurrent⟩ := k.look_ask a
    obtain ⟨hwidth', hheight', hcurrent'⟩ := ih (k.ask a).2
    refine ⟨hwidth'.trans hwidth, hheight'.trans hheight, fun hf => ?_⟩
    obtain ⟨hfirst, hrest⟩ := List.append_eq_nil_iff.1 hf
    exact (hcurrent' hrest).trans (hcurrent (Option.toList_eq_nil_iff.1 hfirst))

/-- Until another frame is received, every whole buffer is painted with the same one. -/
theorem convert_after {asks : List Ask} (h : k.frames asks = []) {image : Image} (himage : image.Whole) :
    (k.after asks).convert image = (.ok (), .plain k.width k.height (colorOf k.current), k.after asks) := by
  obtain ⟨hwidth, hheight, hcurrent⟩ := k.look_after asks
  rw [convert, Image.paint_of_whole himage, hwidth, hheight, hcurrent h]

end Codec

/-- The low sixteen bits of its number can be read off the colour of a frame. -/
theorem colorOf_number (n : Nat) : (colorOf n).red.toNat + 256 * (colorOf n).green.toNat = n % 65536 := by
  change n % 256 + 256 * (n / 256 % 256) = n % 65536
  omega

namespace Source

variable {s : Source} {stream : Nat} {codec : Codec}

theorem openCodec_eq (h : s.openCodec stream = .ok codec) :
    s.videoIndex? = some stream ∧ codec = { width := s.width, height := s.height } := by
  unfold openCodec at h
  split at h
  · next hv =>
    cases h
    exact ⟨hv, rfl⟩
  · cases h

end Source
end TestPattern
end Playhead
