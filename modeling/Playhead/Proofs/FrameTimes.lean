import Playhead.Decoder
import Playhead.Proofs.Doubles
import Playhead.TestPattern.Source
/-!
# FrameTimes — the times of the frames of the test pattern

A time in microseconds names a frame of the test pattern twice over: a container that is sent there goes to the frame
before it, and the marker of the seek counts the nearest frame.  Which frames are then too early is a comparison of
doubles with a tolerance; in the first thirty years of a medium, at up to 100000 frames in a second, it is the
comparison of the frames' numbers (`Regular.frameTime_lt`), and the first frame that is not too early is the nearest
one (`Regular.firstAt_nearest`).
-/
namespace Playhead

namespace TestPattern.Source

open Double

/-- A source of video, at 1 to 100000 frames in a second, that was not told to fail. -/
structure Regular (s : Source) : Prop where
  video : s.hasVideo = true
  slow : 1 ≤ s.fps
  fast : s.fps ≤ 100000
  reads : s.failingRead = none
  seeks : s.failingSeek = false
  whole : s.corruptFrame = none
  size : 8 ≤ s.packetSize

def frameTime (s : Source) (n : Nat) : Float := s.videoStream.timeBase.seconds (Int64.ofNat n)

/-- The frame nearest to a time, a tie going up. -/
def nearestFrame (s : Source) (us : Ticks) : Nat := (us.toInt.toNat * s.fps + 500000) / 1000000

def markTime (s : Source) (us : Ticks) : Float :=
  s.videoStream.timeBase.seconds (s.videoStream.timeBase.rescale us .micros)

variable {s : Source}

theorem Regular.rate_eq (h : s.Regular) : s.rate.toInt = s.fps :=
  Int32.toInt_ofNat_of_lt (Nat.lt_of_le_of_lt h.fast (by decide))

theorem toInt_frame {n : Nat} (hn : n < 2 ^ 63) : (Int64.ofNat n).toInt = n := Int64.toInt_ofNat_of_lt hn

theorem toNat_lt (us : Ticks) : us.toInt.toNat < 2 ^ 63 := by
  have := us.toInt_lt
  omega

/-- **The marker of a seek** is at the frame nearest to its target. -/
theorem Regular.markTime_eq (h : s.Regular) {us : Ticks} (hus : 0 ≤ us.toInt) :
    s.markTime us = s.frameTime (s.nearestFrame us) := by
  have hslow := h.slow
  have hvalid : (s.videoStream.timeBase.isValid && TimeBase.isValid .micros) = true := by
    have hden : 0 < s.rate.toInt := by rw [h.rate_eq]; omega
    have hpos : s.videoStream.timeBase.isValid = (decide (0 < (1 : Int32).toInt) && decide (0 < s.rate.toInt)) := rfl
    rw [hpos, decide_eq_true hden]
    rfl
  have hexact : s.videoStream.timeBase.exactRescale us.toInt .micros = s.nearestFrame us := by
    change Number.nearest (us.toInt * 1 * s.rate.toInt) (1000000 * 1) = _
    obtain ⟨k, hk⟩ := Int.eq_ofNat_of_zero_le hus
    rw [h.rate_eq, Number.nearest, if_pos (by positivity), nearestFrame, hk, Int.mul_one]
    push_cast
    rfl
  have hrescale : s.videoStream.timeBase.rescale us .micros = Int64.ofNat (s.nearestFrame us) := by
    unfold TimeBase.rescale
    rw [if_pos hvalid, hexact]
    exact Int64.ofInt_eq_ofNat
  rw [markTime, hrescale]
  rfl

theorem Regular.frameAt_eq (h : s.Regular) (us : Ticks) : s.frameAt us = us.toInt.toNat * s.fps / 1000000 := by
  have hmul : us.toInt.toNat * s.fps ≤ 2 ^ 63 * 100000 := Nat.mul_le_mul (toNat_lt us).le h.fast
  unfold frameAt
  rw [Nat.mod_eq_of_lt]
  change _ < 2 ^ 64
  omega

/-- The length of a tick of the stream as a double is near enough to what it should be. -/
theorem Regular.tick (h : s.Regular) :
    ∃ d, Denotes s.videoStream.timeBase.toFloat d ∧ |d - 1 / s.fps| ≤ 2 ^ (-51 : Int) := by
  have hslow := h.slow
  have hfast := h.fast
  have hfps : (0 : ℚ) < s.fps := by exact_mod_cast hslow
  have hle : (s.fps : ℚ) ≤ 100000 := by exact_mod_cast hfast
  have hge : (1 : ℚ) ≤ s.fps := by exact_mod_cast hslow
  have hden : s.rate ≠ 0 := by
    intro hz
    have := h.rate_eq
    rw [hz] at this
    have : (0 : Int) = s.fps := this
    omega
  have hdiv : s.videoStream.timeBase.toFloat = Float.ofNat 1 / Float.ofNat s.fps := by
    change (if s.rate = 0 then 0 else Float.ofInt 1 / Float.ofInt s.rate.toInt) = _
    rw [if_neg hden, h.rate_eq]
    rfl
  have one := denotes_ofNat (n := 1) (by decide)
  have fps := denotes_ofNat (Nat.lt_of_le_of_lt hfast (by decide : 100000 < 2 ^ 53))
  rw [Nat.cast_one] at one
  rw [hdiv]
  refine one.div fps hfps (N := 0) (by decide) (by decide) ?_ ?_
  · have hsmall : (2 : ℚ) ^ (-1020 : Int) ≤ 2 ^ (-17 : Int) := zpow_le_zpow_right₀ (by norm_num) (by norm_num)
    rw [le_div_iff₀ hfps]
    calc (2 : ℚ) ^ (-1020 : Int) * s.fps ≤ 2 ^ (-17 : Int) * 100000 := by gcongr
      _ ≤ 1 := by norm_num
  · rw [zpow_zero, div_le_one hfps]
    exact hge

theorem Regular.frameTime_near (h : s.Regular) {n : Nat} (hn : n ≤ (10 ^ 9 + 1) * s.fps) {d : ℚ}
    (hd : Denotes s.videoStream.timeBase.toFloat d) (herr : |d - 1 / s.fps| ≤ 2 ^ (-51 : Int)) :
    ∃ v, Denotes (s.frameTime n) v ∧ |v - n * d| ≤ 2 ^ (-22 : Int) ∧ (n : ℚ) * d ≤ 10 ^ 9 + 2 := by
  have hfps : (0 : ℚ) < s.fps := by exact_mod_cast h.slow
  have hle : (s.fps : ℚ) ≤ 100000 := by exact_mod_cast h.fast
  have hmax : (10 ^ 9 + 1) * s.fps ≤ (10 ^ 9 + 1) * 100000 := Nat.mul_le_mul_left _ h.fast
  have htime : s.frameTime n = Float.ofNat n * s.videoStream.timeBase.toFloat := by
    change Float.ofInt (Int64.ofNat n).toInt * _ = _
    rw [toInt_frame (by omega)]
    rfl
  have hbound : (n : ℚ) * d ≤ 10 ^ 9 + 2 := by
    have hn' : (n : ℚ) ≤ (10 ^ 9 + 1) * s.fps := by exact_mod_cast hn
    have hd' : d ≤ 1 / s.fps + 2 ^ (-51 : Int) := by linarith [(abs_le.1 herr).2]
    have hfrac : (n : ℚ) * (1 / s.fps) ≤ 10 ^ 9 + 1 := by
      rw [mul_one_div, div_le_iff₀ hfps]
      exact hn'
    have hrest : (n : ℚ) * 2 ^ (-51 : Int) ≤ 1 := by
      calc (n : ℚ) * 2 ^ (-51 : Int) ≤ ((10 ^ 9 + 1) * 100000) * 2 ^ (-51 : Int) := by
            gcongr
            exact hn'.trans (by gcongr)
        _ ≤ 1 := by norm_num
    calc (n : ℚ) * d ≤ n * (1 / s.fps + 2 ^ (-51 : Int)) := by gcongr
      _ = n * (1 / s.fps) + n * 2 ^ (-51 : Int) := mul_add _ _ _
      _ ≤ 10 ^ 9 + 1 + 1 := add_le_add hfrac hrest
      _ = 10 ^ 9 + 2 := by norm_num
  obtain ⟨v, hv, hv'⟩ := (denotes_ofNat (show n < 2 ^ 53 by omega)).mul hd (N := 30) (by decide) (by decide)
    (hbound.trans (by norm_num))
  rw [htime]
  exact ⟨v, hv, hv', hbound⟩

theorem denotes_tolerance : Denotes Decoder.tolerance ((4722366482869645 : Nat) * 2 ^ (-72 : Int)) :=
  .finite (by decide) ⟨by decide, by decide, by decide, .inl (by decide)⟩ rfl

/-- **Which frames are skipped**, in the first thirty years of a medium. -/
theorem Regular.frameTime_lt (h : s.Regular) {j n : Nat} (hj : j ≤ (10 ^ 9 + 1) * s.fps)
    (hn : n ≤ (10 ^ 9 + 1) * s.fps) :
    s.frameTime j + Decoder.tolerance < s.frameTime n ↔ j < n := by
  obtain ⟨d, hd, herr⟩ := h.tick
  obtain ⟨u, hu, hu', hbound⟩ := h.frameTime_near hj hd herr
  obtain ⟨v, hv, hv', -⟩ := h.frameTime_near hn hd herr
  have hgap : (9 / 10 ^ 6 : ℚ) ≤ d := by
    have hfps : (0 : ℚ) < s.fps := by exact_mod_cast h.slow
    have hle : (s.fps : ℚ) ≤ 100000 := by exact_mod_cast h.fast
    have hrate : (1 / 100000 : ℚ) ≤ 1 / s.fps := one_div_le_one_div_of_le hfps hle
    norm_num at herr hrate
    linarith [(abs_le.1 herr).1]
  norm_num at hu' hv'
  obtain ⟨hu₁, hu₂⟩ := abs_le.1 hu'
  obtain ⟨hv₁, hv₂⟩ := abs_le.1 hv'
  obtain ⟨w, hw, hw'⟩ := hu.add denotes_tolerance (N := 30) (by decide) (by decide) (by norm_num; linarith)
  norm_num at hw'
  obtain ⟨hw₁, hw₂⟩ := abs_le.1 hw'
  rw [hw.lt_iff hv]
  constructor
  · intro hlt
    by_contra hge
    have hle : (n : ℚ) ≤ j := by exact_mod_cast Nat.le_of_not_lt hge
    have hmul : (n : ℚ) * d ≤ j * d := mul_le_mul_of_nonneg_right hle (by linarith)
    linarith
  · intro hlt
    have hle : (j : ℚ) + 1 ≤ n := by exact_mod_cast hlt
    have hmul : ((j : ℚ) + 1) * d ≤ n * d := mul_le_mul_of_nonneg_right hle (by linarith)
    linarith

/-- The first frame from the position of a seek on that is not too early. -/
structure FirstAt (s : Source) (us : Ticks) (n : Nat) : Prop where
  behind : s.frameAt us ≤ n
  early : ∀ i, s.frameAt us ≤ i → i < n → s.frameTime i + Decoder.tolerance < s.markTime us
  due : ¬ s.frameTime n + Decoder.tolerance < s.markTime us

theorem FirstAt.unique {us : Ticks} {n n' : Nat} (h : s.FirstAt us n) (h' : s.FirstAt us n') : n = n' := by
  rcases Nat.lt_trichotomy n n' with hlt | heq | hgt
  · exact absurd (h'.early n h.behind hlt) h.due
  · exact heq
  · exact absurd (h.early n' h'.behind hgt) h'.due

theorem Regular.frameAt_le (h : s.Regular) (us : Ticks) :
    s.frameAt us ≤ s.nearestFrame us ∧ s.nearestFrame us ≤ s.frameAt us + 1 := by
  rw [h.frameAt_eq]
  unfold nearestFrame
  omega

theorem Regular.firstAt_nearest (h : s.Regular) {us : Ticks} (hus : 0 ≤ us.toInt) (hmax : us.toInt ≤ 10 ^ 15) :
    s.FirstAt us (s.nearestFrame us) := by
  have hbound : s.nearestFrame us ≤ (10 ^ 9 + 1) * s.fps := by
    have hmul : us.toInt.toNat * s.fps ≤ 10 ^ 15 * s.fps := Nat.mul_le_mul_right _ (by omega)
    have hslow := h.slow
    unfold nearestFrame
    omega
  refine ⟨(h.frameAt_le us).1, fun i _ hi => ?_, fun hlt => ?_⟩
  · rw [h.markTime_eq hus]
    exact (h.frameTime_lt (hi.le.trans hbound) hbound).2 hi
  · rw [h.markTime_eq hus] at hlt
    exact absurd ((h.frameTime_lt hbound hbound).1 hlt) (lt_irrefl _)

end TestPattern.Source
end Playhead
