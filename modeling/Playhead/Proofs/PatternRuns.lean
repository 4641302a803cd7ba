import Playhead.Proofs.PatternReads
import Playhead.Proofs.Rescaling
/-!
# PatternRuns — what a test pattern gives, however it is read and sent about

At every moment a source has a list of packets to come: the audio packet that is owed, and behind it, for every frame
from the position on, its video packet and then its audio packet (`Source.upcoming`).  A read takes the head of the list
(`Coherent.advance`), a read that fails takes nothing, a seek puts the list of another position in its place
(`seek_lands`).  So a failing read shows in one reply and nowhere else (`replies_erase`), and the mark that a seek
leaves on the video queue is the frame it lands on or the next one (`mark_near`).
-/
namespace Playhead
namespace TestPattern.Source

open Number

variable {s c d : Source}

/-! ## Sources in use -/

/-- A source that was set up and not yet used. -/
inductive Built : Source → Prop
  | new (duration : Float) (fps : Nat) : Built (.new duration fps)
  | withSize {s : Source} (h : Built s) (width height : Nat) : Built (s.withSize width height)
  | withAudio {s : Source} (h : Built s) : Built s.withAudio
  | withoutVideo {s : Source} (h : Built s) : Built s.withoutVideo
  | withPacketSize {s : Source} (h : Built s) (size : Nat) : Built (s.withPacketSize size)
  | withFailingSeek {s : Source} (h : Built s) : Built s.withFailingSeek
  | withFailingRead {s : Source} (h : Built s) (n : Nat) : Built (s.withFailingRead n)
  | withCorruptFrame {s : Source} (h : Built s) (frame : Nat) : Built (s.withCorruptFrame frame)

structure Fresh (s : Source) : Prop where
  slow : 1 ≤ s.fps
  size : 8 ≤ s.packetSize
  reads : s.reads = 0
  position : s.position = 0
  owed : s.audioOwed = false

theorem Built.fresh (h : s.Built) : s.Fresh := by
  induction h with
  | new duration fps => exact ⟨Nat.le_max_right fps 1, Nat.le_of_ble_eq_true rfl, rfl, rfl, rfl⟩
  | withPacketSize _ size ih => exact ⟨ih.slow, Nat.le_max_right size 8, ih.reads, ih.position, ih.owed⟩
  | withSize _ _ _ ih | withAudio _ ih | withoutVideo _ ih | withFailingSeek _ ih | withFailingRead _ _ ih
  | withCorruptFrame _ _ ih => exact ⟨ih.slow, ih.size, ih.reads, ih.position, ih.owed⟩

inductive Use
  | read
  | seek (us : Ticks)
deriving DecidableEq

inductive Reply
  | read (result : Outcome (Option Packet))
  | sought (result : Outcome Unit)

def failedRead : Reply := .read (.error (.io (.other "测试图样模拟读取失败")))

def refusedSeek : Reply := .sought (.error (.io (.other "测试图样不支持 seek")))

def use (s : Source) : Use → Reply × Source
  | .read => (.read s.read.1, s.read.2)
  | .seek us => (.sought (s.seek us).1, (s.seek us).2)

def after (s : Source) : List Use → Source
  | [] => s
  | u :: uses => (s.use u).2.after uses

def replies (s : Source) : List Use → List Reply
  | [] => []
  | u :: uses => (s.use u).1 :: (s.use u).2.replies uses

theorem replies_append (s : Source) (uses more : List Use) :
    s.replies (uses ++ more) = s.replies uses ++ (s.after uses).replies more := by
  induction uses generalizing s with
  | nil => rfl
  | cons u uses ih => exact congrArg (_ :: ·) (ih _)

@[simp] theorem length_replies (s : Source) (uses : List Use) : (s.replies uses).length = uses.length := by
  induction uses generalizing s with
  | nil => rfl
  | cons u uses ih => exact congrArg (· + 1) (ih _)

theorem getElem?_replies (s : Source) (uses : List Use) (i : Nat) :
    (s.replies uses)[i]? = uses[i]?.map (fun u => ((s.after (uses.take i)).use u).1) := by
  induction uses generalizing s i with
  | nil => rfl
  | cons u uses ih =>
    cases i with
    | zero => rfl
    | succ i => exact ih _ i

/-! ## The packets to come -/

/-- The packets of a frame: that of the video, and behind it that of the audio. -/
def framePackets (s : Source) (n : Nat) : List Packet :=
  s.videoIndex?.toList.map (s.videoPacket · n) ++ s.audioIndex?.toList.map (s.audioPacket · n)

def framesFrom (s : Source) (p : Nat) : List Packet := (List.range' p (s.frameCount - p)).flatMap s.framePackets

/-- The audio packet of the frame whose video packet was read last, if it is owed. -/
def owed (s : Source) : List Packet :=
  if s.audioOwed then s.audioIndex?.toList.map (s.audioPacket · (s.position - 1)) else []

def upcoming (s : Source) : List Packet := s.owed ++ s.framesFrom s.position

/-- Audio is owed only behind a frame, by a source that has audio; and no frame is behind the last one. -/
structure Coherent (s : Source) : Prop where
  owed : s.audioOwed = true → 1 ≤ s.position ∧ ∃ audio, s.audioIndex? = some audio
  within : s.position ≤ s.frameCount

theorem framesFrom_of_le {p : Nat} (h : s.frameCount ≤ p) : s.framesFrom p = [] := by
  rw [framesFrom, Nat.sub_eq_zero_of_le h]
  rfl

theorem framesFrom_of_lt {p : Nat} (h : p < s.frameCount) :
    s.framesFrom p = s.framePackets p ++ s.framesFrom (p + 1) := by
  have hcount : s.frameCount - p = s.frameCount - (p + 1) + 1 := by omega
  rw [framesFrom, hcount, List.range'_succ, List.flatMap_cons]
  rfl

theorem framesFrom_of_no_stream (hv : s.videoIndex? = none) (ha : s.audioIndex? = none) (p : Nat) :
    s.framesFrom p = [] := by
  refine List.flatMap_eq_nil_iff.2 (fun n _ => ?_)
  rw [framePackets, hv, ha]
  rfl

theorem upcoming_of_settled (h : s.audioOwed = false) : s.upcoming = s.framesFrom s.position := by
  rw [upcoming, owed, h]
  rfl

theorem upcoming_of_owed (h : s.audioOwed = true) {audio : Nat} (ha : s.audioIndex? = some audio) :
    s.upcoming = s.audioPacket audio (s.position - 1) :: s.framesFrom s.position := by
  rw [upcoming, owed, if_pos h, ha]
  rfl

theorem Of.frameCount_eq (h : s.Of c) : c.frameCount = s.frameCount := by
  rw [h]
  rfl

theorem Of.framesFrom_eq (h : s.Of c) (p : Nat) : c.framesFrom p = s.framesFrom p := by
  rw [h]
  rfl

structure Takes (s : Source) (p : Option Packet) (c : Source) : Prop where
  of : s.Of c
  reads : c.reads = s.reads
  packet : p = s.upcoming.head?
  rest : c.upcoming = s.upcoming.tail
  coherent : c.Coherent

theorem takes_atPosition (ho : s.audioOwed = false) (hp : s.position ≤ s.frameCount) :
    s.Takes s.atPosition.1 s.atPosition.2 := by
  have settled := upcoming_of_settled ho
  by_cases hend : s.frameCount ≤ s.position
  · rw [framesFrom_of_le hend] at settled
    rw [atPosition, if_pos hend]
    exact ⟨rfl, rfl, by rw [settled]; rfl, by rw [settled]; rfl,
      ⟨fun h => absurd (ho.symm.trans h) Bool.false_ne_true, hp⟩⟩
  · have hlt : s.position < s.frameCount := Nat.lt_of_not_le hend
    rw [framesFrom_of_lt hlt, framePackets] at settled
    rw [atPosition, if_neg hend]
    cases hv : s.videoIndex? with
    | some video =>
      rw [hv] at settled
      refine ⟨rfl, rfl, by rw [settled]; rfl, ?_, ⟨fun h => ⟨Nat.le_add_left 1 s.position, ?_⟩, hlt⟩⟩
      · rw [settled, upcoming, owed]
        cases ha : s.audioIndex? with
        | none => rfl
        | some audio =>
          change (s.audioIndex?.toList.map _ ++ _ : List Packet) = _
          rw [ha]
          rfl
      · exact Option.isSome_iff_exists.1 h
    | none =>
      rw [hv] at settled
      have coherent : ({ s with position := s.position + 1 } : Source).Coherent :=
        ⟨fun h => absurd (ho.symm.trans h) Bool.false_ne_true, hlt⟩
      have later : ({ s with position := s.position + 1 } : Source).upcoming = s.framesFrom (s.position + 1) :=
        upcoming_of_settled ho
      cases ha : s.audioIndex? with
      | some audio =>
        rw [ha] at settled
        exact ⟨rfl, rfl, by rw [settled]; rfl, by rw [settled]; exact later, coherent⟩
      | none =>
        rw [ha, framesFrom_of_no_stream hv ha] at settled
        rw [framesFrom_of_no_stream hv ha] at later
        exact ⟨rfl, rfl, by rw [settled]; rfl, by rw [settled]; exact later, coherent⟩

/-- **What is given next is the first of the packets to come**, and the rest of them is still to come. -/
theorem Coherent.advance (h : s.Coherent) : s.Takes s.advance.1 s.advance.2 := by
  cases ho : s.audioOwed with
  | false =>
    have hadvance : s.advance = s.atPosition := by
      rw [Source.advance, ho]
      rfl
    rw [hadvance]
    exact takes_atPosition ho h.within
  | true =>
    obtain ⟨-, audio, ha⟩ := h.owed ho
    have hadvance : s.advance = (some (s.audioPacket audio (s.position - 1)), { s with audioOwed := false }) := by
      have same : ({ s with audioOwed := false } : Source).audioIndex? = s.audioIndex? := rfl
      simp only [Source.advance, ho, if_true, same, ha]
      rfl
    have hup := upcoming_of_owed ho ha
    rw [hadvance]
    exact ⟨rfl, rfl, by rw [hup]; rfl, by rw [hup]; rfl, ⟨fun h => absurd h Bool.false_ne_true, h.within⟩⟩

theorem read_failing (h : s.failingRead = some s.reads) :
    s.use .read = (failedRead, { s with reads := s.reads + 1 }) := by
  rw [use, Source.read, if_pos h]
  rfl

theorem read_else (h : s.failingRead ≠ some s.reads) :
    s.use .read = (.read (.ok ({ s with reads := s.reads + 1 } : Source).advance.1),
      ({ s with reads := s.reads + 1 } : Source).advance.2) := by
  rw [use, Source.read, if_neg h]

theorem Coherent.takes (h : s.Coherent) :
    ({ s with reads := s.reads + 1 } : Source).Takes ({ s with reads := s.reads + 1 } : Source).advance.1
      ({ s with reads := s.reads + 1 } : Source).advance.2 :=
  Coherent.advance ⟨h.owed, h.within⟩

/-! ## Seeks -/

theorem seek_refused (hs : s.failingSeek = true) (us : Ticks) : s.use (.seek us) = (refusedSeek, s) := by
  rw [use, Source.seek, if_pos hs]
  rfl

theorem seek_else (hs : s.failingSeek = false) (us : Ticks) : s.use (.seek us) =
    (.sought (.ok ()), { s with position := min (s.frameAt us) s.frameCount, audioOwed := false }) := by
  rw [use, Source.seek, if_neg (Bool.eq_false_iff.1 hs)]

/-- **Where a seek lands**: no audio is owed there, it is not behind the time that was asked for, and as long as the
frame of that time fits in 64 bits it is that frame, or behind the last one. -/
structure LandsAt (s : Source) (us : Ticks) (there : Source) : Prop where
  owed : there.audioOwed = false
  early : (there.position : ℤ) * 1000000 ≤ max us.toInt 0 * s.fps
  frame : max us.toInt 0 * s.fps / 1000000 < 2 ^ 64 →
    (there.position : ℤ) = min (max us.toInt 0 * s.fps / 1000000) s.frameCount

theorem seek_lands (hs : s.failingSeek = false) (us : Ticks) :
    (s.use (.seek us)).1 = .sought (.ok ()) ∧ s.LandsAt us (s.use (.seek us)).2 := by
  have hmax : max us.toInt 0 = us.toInt.toNat := us.toInt.ofNat_toNat.symm
  rw [seek_else hs]
  refine ⟨rfl, rfl, ?_, fun hfits => ?_⟩
  · rw [hmax]
    have hcut : s.frameAt us ≤ us.toInt.toNat * s.fps / 1000000 := Nat.mod_le _ _
    have hland : min (s.frameAt us) s.frameCount ≤ us.toInt.toNat * s.fps / 1000000 :=
      (Nat.min_le_left _ _).trans hcut
    exact_mod_cast Nat.mul_le_of_le_div _ _ _ hland
  · rw [hmax] at hfits ⊢
    have hfits' : us.toInt.toNat * s.fps / 1000000 < 2 ^ 64 := by exact_mod_cast hfits
    have hframe : s.frameAt us = us.toInt.toNat * s.fps / 1000000 := Nat.mod_eq_of_lt hfits'
    change ((min (s.frameAt us) s.frameCount : Nat) : ℤ) = _
    rw [hframe]
    push_cast
    rfl

theorem Coherent.seek (h : s.Coherent) (us : Ticks) :
    s.Of (s.use (.seek us)).2 ∧ (s.use (.seek us)).2.reads = s.reads ∧ (s.use (.seek us)).2.Coherent := by
  cases hs : s.failingSeek with
  | true =>
    rw [seek_refused hs]
    exact ⟨rfl, rfl, h⟩
  | false =>
    rw [seek_else hs]
    exact ⟨rfl, rfl, nofun, Nat.min_le_right _ _⟩

/-- The frame nearest to a time: the frame of the time or the next one, unless the time is negative. -/
structure NearFrame (s : Source) (us : Ticks) (m : ℤ) : Prop where
  near : |2 * (m * 1000000 - us.toInt * s.fps)| ≤ 1000000
  next : 0 ≤ us.toInt → m = us.toInt * s.fps / 1000000 ∨ m = us.toInt * s.fps / 1000000 + 1
  first : us.toInt < 0 → m ≤ 0

/-- **The mark of a seek is the frame it asks for, rounded to the nearest.** -/
theorem mark_near (hslow : 1 ≤ s.fps) (hfast : s.fps < 2 ^ 31) (us : Ticks) :
    ∃ m, SeekStage.marker s.videoStream us = .marker (low64 m) ∧ s.NearFrame us m := by
  have hrate : s.rate.toInt = s.fps := Int32.toInt_ofNat_of_lt hfast
  have hvalid : s.videoStream.timeBase.isValid = true :=
    s.videoStream.timeBase.isValid_iff.2 ⟨(by decide : 0 < (1 : Int32).toInt), by change 0 < s.rate.toInt; omega⟩
  have hmark : s.videoStream.timeBase.exactRescale us.toInt .micros = nearest (us.toInt * s.fps) 1000000 := by
    change nearest (us.toInt * 1 * s.rate.toInt) (1000000 * 1) = _
    rw [hrate, mul_one, mul_one]
  refine ⟨nearest (us.toInt * s.fps) 1000000, ?_, ?_⟩
  · rw [SeekStage.marker, TimeBase.rescale_of_valid (by decide) hvalid, hmark]
  · have hneg : us.toInt < 0 → us.toInt * s.fps < 0 := fun hus => Int.mul_neg_of_neg_of_pos hus (by omega)
    have hpos : 0 ≤ us.toInt → 0 ≤ us.toInt * s.fps := fun hus => Int.mul_nonneg hus (by omega)
    have hbounds := nearest_bounds (us.toInt * s.fps) (d := 1000000) (by decide)
    generalize nearest (us.toInt * s.fps) 1000000 = m at *
    have hnear : |2 * (m * 1000000 - us.toInt * s.fps)| ≤ 1000000 := by
      rw [abs_le]
      omega
    exact ⟨hnear, by omega, by omega⟩

theorem LandsAt.mark {us : Ticks} {there : Source} (h : s.LandsAt us there) (hslow : 1 ≤ s.fps) (hfast : s.fps < 2 ^ 31)
    (hus : 0 ≤ us.toInt) (hfits : us.toInt * s.fps / 1000000 < 2 ^ 63 - 1) (hin : there.position < s.frameCount) :
    ∃ t : Ticks, SeekStage.marker s.videoStream us = .marker t ∧
      (t.toInt = there.position ∨ t.toInt = there.position + 1) := by
  obtain ⟨m, hm, hnear⟩ := mark_near hslow hfast us
  have hnext := hnear.next hus
  have hnonneg : 0 ≤ us.toInt * s.fps := Int.mul_nonneg hus (by omega)
  have hframe := h.frame
  rw [max_eq_left hus] at hframe
  refine ⟨low64 m, hm, ?_⟩
  rw [low64, Int64.toInt_ofInt_of_le (by omega) (by omega)]
  omega

theorem Of.landsAt {us : Ticks} {there : Source} (h : s.Of c) (hl : c.LandsAt us there) : s.LandsAt us there := by
  rw [h] at hl
  exact ⟨hl.owed, hl.early, hl.frame⟩

/-! ## Runs -/

theorem Coherent.use (h : s.Coherent) (u : Use) :
    s.Of (s.use u).2 ∧ (s.use u).2.reads = s.reads + [u].count .read ∧ (s.use u).2.Coherent := by
  cases u with
  | seek us => exact h.seek us
  | read =>
    by_cases hf : s.failingRead = some s.reads
    · rw [read_failing hf]
      exact ⟨rfl, rfl, h.owed, h.within⟩
    · rw [read_else hf]
      exact ⟨Of.trans (show s.Of { s with reads := s.reads + 1 } from rfl) h.takes.of, h.takes.reads, h.takes.coherent⟩

theorem Coherent.after (h : s.Coherent) (uses : List Use) :
    s.Of (s.after uses) ∧ (s.after uses).reads = s.reads + uses.count .read ∧ (s.after uses).Coherent := by
  induction uses generalizing s with
  | nil => exact ⟨rfl, rfl, h⟩
  | cons u uses ih =>
    obtain ⟨hof, hreads, hnext⟩ := h.use u
    obtain ⟨hof', hreads', hafter⟩ := ih hnext
    have hcount : (u :: uses).count .read = [u].count .read + uses.count .read :=
      (congrArg (List.count .read) (List.singleton_append (x := u) (l := uses)).symm).trans List.count_append
    refine ⟨hof.trans hof', ?_, hafter⟩
    change ((s.use u).2.after uses).reads = _
    rw [hreads', hreads, hcount, Nat.add_assoc]

def counted (s : Source) (reads : Nat) (failing : Option Nat) : Source := { s with reads, failingRead := failing }

def mended (s : Source) : Source := s.counted s.reads none

/-- The read that fails is over, or it is behind these uses. -/
def Spares (s : Source) (uses : List Use) : Prop :=
  ∀ n, s.failingRead = some n → n < s.reads ∨ s.reads + uses.count .read ≤ n

theorem atPosition_counted (s : Source) (reads : Nat) (failing : Option Nat) :
    (s.counted reads failing).atPosition = (s.atPosition.1, s.atPosition.2.counted reads failing) := by
  have hcount : (s.counted reads failing).frameCount = s.frameCount := rfl
  have hvideo : (s.counted reads failing).videoIndex? = s.videoIndex? := rfl
  have haudio : (s.counted reads failing).audioIndex? = s.audioIndex? := rfl
  rw [atPosition, atPosition, hcount, hvideo, haudio]
  by_cases hend : s.frameCount ≤ s.position
  · rw [if_pos hend, if_pos (show s.frameCount ≤ (s.counted reads failing).position from hend)]
  · rw [if_neg hend, if_neg (show ¬ s.frameCount ≤ (s.counted reads failing).position from hend)]
    cases s.videoIndex? <;> cases s.audioIndex? <;> rfl

theorem advance_counted (s : Source) (reads : Nat) (failing : Option Nat) :
    (s.counted reads failing).advance = (s.advance.1, s.advance.2.counted reads failing) := by
  have howed : (s.counted reads failing).audioOwed = s.audioOwed := rfl
  rcases ho : s.audioOwed with _ | _
  · have hplain (c : Source) (hc : c.audioOwed = false) : c.advance = c.atPosition := by
      rw [advance, hc]
      rfl
    rw [hplain _ ho, hplain _ (howed.trans ho), atPosition_counted]
  · have haudio : ({ s.counted reads failing with audioOwed := false } : Source).audioIndex? = s.audioIndex? := rfl
    have hsame : ({ s with audioOwed := false } : Source).audioIndex? = s.audioIndex? := rfl
    rw [advance, advance, if_pos ho, if_pos (howed.trans ho)]
    simp only [haudio, hsame]
    cases s.audioIndex? with
    | none => exact atPosition_counted { s with audioOwed := false } reads failing
    | some audio => rfl

theorem use_counted {u : Use} (hs : u = .read → s.failingRead ≠ some s.reads) {reads : Nat} {failing : Option Nat}
    (hc : u = .read → failing ≠ some reads) :
    (s.counted reads failing).use u = ((s.use u).1, (s.use u).2.counted (reads + [u].count .read) failing) := by
  cases u with
  | seek us =>
    cases hf : s.failingSeek with
    | true => rw [seek_refused hf, seek_refused (show (s.counted reads failing).failingSeek = true from hf)]; rfl
    | false => rw [seek_else hf, seek_else (show (s.counted reads failing).failingSeek = false from hf)]; rfl
  | read =>
    have hplain := advance_counted { s with reads := s.reads + 1 } (reads + 1) failing
    rw [read_else (hs rfl), read_else (hc rfl)]
    change (Reply.read (.ok (({ s with reads := s.reads + 1 } : Source).counted (reads + 1) failing).advance.1),
      (({ s with reads := s.reads + 1 } : Source).counted (reads + 1) failing).advance.2) = _
    rw [hplain]
    rfl

theorem Spares.head {u : Use} {uses : List Use} (h : s.Spares (u :: uses)) :
    u = .read → s.failingRead ≠ some s.reads := by
  rintro rfl hf
  have := h s.reads hf
  rw [List.count_cons_self] at this
  omega

theorem count_cons (u : Use) (uses : List Use) : (u :: uses).count .read = [u].count .read + uses.count .read :=
  (congrArg (List.count .read) (List.singleton_append (x := u) (l := uses)).symm).trans List.count_append

theorem Spares.tail {u : Use} {uses : List Use} (h : s.Spares (u :: uses)) (hs : s.Coherent) :
    (s.use u).2.Spares uses := by
  intro n hn
  obtain ⟨hof, hreads, -⟩ := hs.use u
  rw [hof] at hn
  have := h n hn
  rw [count_cons] at this
  omega

/-- **A failing read that does not come about leaves no trace**: nor does the count of reads. -/
theorem replies_counted (h : s.Coherent) (uses : List Use) (hs : s.Spares uses) {reads : Nat} {failing : Option Nat}
    (hc : (s.counted reads failing).Spares uses) :
    (s.counted reads failing).replies uses = s.replies uses ∧
      (s.counted reads failing).after uses = (s.after uses).counted (reads + uses.count .read) failing := by
  induction uses generalizing s reads with
  | nil => exact ⟨rfl, rfl⟩
  | cons u uses ih =>
    have huse : (s.counted reads failing).use u = _ := use_counted hs.head hc.head
    have hc' := hc.tail ⟨h.owed, h.within⟩
    rw [huse] at hc'
    obtain ⟨hreplies, hafter⟩ := ih (h.use u).2.2 (hs.tail h) hc'
    constructor
    · rw [replies, huse, hreplies]
      rfl
    · rw [after, huse, hafter, Nat.add_assoc, ← count_cons]
      rfl

theorem mended_spares (s : Source) (uses : List Use) : s.mended.Spares uses := nofun

theorem Coherent.mended (h : s.Coherent) : s.mended.Coherent := ⟨h.owed, h.within⟩

theorem replies_mended (h : s.Coherent) {uses : List Use} (hs : s.Spares uses) :
    s.replies uses = s.mended.replies uses ∧ (s.after uses).mended = s.mended.after uses := by
  obtain ⟨hreplies, hafter⟩ := replies_counted h uses hs (mended_spares s uses)
  refine ⟨hreplies.symm, ?_⟩
  rw [Source.mended, Source.mended, hafter, (h.after uses).2.1]

/-- **A failing read can be struck out**: without it and its reply the source gives what it gives if no read fails. -/
theorem replies_erase (h : s.Coherent) {before : List Use} (hf : s.failingRead = some (s.reads + before.count .read))
    (rest : List Use) :
    (s.replies (before ++ .read :: rest)).eraseIdx before.length = s.mended.replies (before ++ rest) := by
  obtain ⟨hof, hreads, hafter⟩ := h.after before
  have spared : s.Spares before := fun n hn => .inr (Option.some.inj (hf.symm.trans hn)).le
  have fails : (s.after before).failingRead = some (s.after before).reads := by
    rw [hreads, ← hf, hof]
  obtain ⟨hbefore, hmended⟩ := replies_mended h spared
  have past : ((s.after before).counted ((s.after before).reads + 1) (s.after before).failingRead).Spares rest := by
    intro n hn
    have hn' := Option.some.inj (fails.symm.trans hn)
    exact .inl (by change n < (s.after before).reads + 1; omega)
  have hrest := (replies_counted hafter.mended rest (mended_spares _ rest) past).1
  have hfail : (s.after before).replies (.read :: rest) = failedRead :: (s.after before).mended.replies rest := by
    rw [replies, read_failing fails]
    exact congrArg _ hrest
  rw [replies_append, replies_append, hfail, ← hmended, ← hbefore, ← length_replies s before,
    List.eraseIdx_append_of_length_le (Nat.le_refl _), Nat.sub_self]
  rfl

theorem use_eq_failed {u : Use} : (s.use u).1 = failedRead ↔ u = .read ∧ s.failingRead = some s.reads := by
  constructor
  · intro h
    cases u with
    | seek us =>
      exact nomatch h
    | read =>
      by_cases hf : s.failingRead = some s.reads
      · exact ⟨rfl, hf⟩
      · rw [read_else hf] at h
        exact nomatch h
  · rintro ⟨rfl, hf⟩
    rw [read_failing hf]

/-- **The read that fails is one read**: the one that has so many reads before it. -/
theorem failed_iff (h : s.Coherent) (uses : List Use) (i : Nat) :
    (s.replies uses)[i]? = some failedRead ↔
      uses[i]? = some .read ∧ s.failingRead = some (s.reads + (uses.take i).count .read) := by
  obtain ⟨hof, hreads, -⟩ := h.after (uses.take i)
  have hfailing : (s.after (uses.take i)).failingRead = s.failingRead := by rw [hof]
  rw [getElem?_replies, Option.map_eq_some_iff]
  constructor
  · rintro ⟨u, hu, hfail⟩
    obtain ⟨rfl, hf⟩ := use_eq_failed.1 hfail
    rw [hfailing, hreads] at hf
    exact ⟨hu, hf⟩
  · rintro ⟨hu, hf⟩
    refine ⟨_, hu, use_eq_failed.2 ⟨rfl, ?_⟩⟩
    rw [hfailing, hreads]
    exact hf

/-- **Reads give the packets to come, in order, and then the end, for ever.** -/
theorem replies_reads (h : s.Coherent) (hf : s.failingRead = none) (k : Nat) :
    s.replies (.replicate k .read) = (List.range k).map (fun i => .read (.ok s.upcoming[i]?)) := by
  induction k generalizing s with
  | zero => rfl
  | succ k ih =>
    have huse := read_else (s := s) (by rw [hf]; nofun)
    have htakes := h.takes
    have hnext : ({ s with reads := s.reads + 1 } : Source).advance.2.failingRead = none := by
      rw [htakes.of]
      exact hf
    rw [List.replicate_succ, replies, huse, ih htakes.coherent hnext, List.range_succ_eq_map, List.map_cons,
      List.map_map, htakes.packet, htakes.rest, List.head?_eq_getElem?]
    refine congrArg _ (List.map_congr_left (fun i _ => ?_))
    simp only [Function.comp_apply, List.getElem?_tail]
    rfl

theorem Fresh.coherent (h : s.Fresh) : s.Coherent where
  owed ho := nomatch h.owed.symm.trans ho
  within := by
    rw [h.position]
    exact Nat.zero_le _

end TestPattern.Source
end Playhead
