import Mathlib
import Playhead.TimeBase
/-!
# Rescaling — a stamp goes to the nearest tick

A time is carried from one base to another by whole-number arithmetic: a product of three factors, half of the divisor
added or taken away, one division.  In words of 128 bits none of it overflows (`TimeBase.wideRescale_eq`), and what
comes out is the nearest tick, a tie going away from zero (`Number.isNearest_nearest`).  So the order of times is kept,
and their sign; and on the way to a finer base and back nothing is lost (`Number.nearest_nearest`).
-/
namespace Playhead
namespace Number

/-- The integer nearest to a number; of two that are equally near, the one farther from zero. -/
def IsNearest (q : ℚ) (n : ℤ) : Prop :=
  ∀ k : ℤ, k ≠ n → |q - n| < |q - k| ∨ |q - n| = |q - k| ∧ |k| < |n|

theorem IsNearest.neg {q : ℚ} {n : ℤ} (h : IsNearest q n) : IsNearest (-q) (-n) := by
  intro k hk
  have reflect (m : ℤ) : |-q - ((-m : ℤ) : ℚ)| = |q - m| := by
    push_cast
    rw [← abs_neg]
    ring_nf
  have hk' := h (-k) (fun he => hk (by omega))
  rw [← reflect (-k), Int.neg_neg, abs_neg k] at hk'
  rwa [reflect, abs_neg n]

/-! ## The quotient that is rounded -/

theorem nearest_bounds (n : ℤ) {d : ℤ} (hd : 0 < d) :
    (0 ≤ n → 2 * n - d < 2 * (nearest n d * d) ∧ 2 * (nearest n d * d) ≤ 2 * n + d) ∧
      (n < 0 → 2 * n - d ≤ 2 * (nearest n d * d) ∧ 2 * (nearest n d * d) < 2 * n + d) := by
  have round (m : ℤ) : 2 * m - d < 2 * ((m + d / 2) / d * d) ∧ 2 * ((m + d / 2) / d * d) ≤ 2 * m + d := by
    have hlow := Int.lt_ediv_add_one_mul_self (m + d / 2) hd
    have hhigh := Int.ediv_mul_le (m + d / 2) hd.ne'
    rw [Int.add_mul, Int.one_mul] at hlow
    omega
  constructor
  · intro hn
    rw [nearest, if_pos hn]
    exact round n
  · intro hn
    obtain ⟨hlow, hhigh⟩ := round (-n)
    have hswap : d / 2 - n = -n + d / 2 := by omega
    rw [nearest, if_neg (by omega), hswap, Int.neg_mul]
    omega

/-- What is less than half a step away from the quotient is the nearest integer. -/
theorem nearest_eq_of_lt {n d m : ℤ} (hd : 0 < d) (hlow : 2 * n - d < 2 * (m * d)) (hhigh : 2 * (m * d) < 2 * n + d) :
    nearest n d = m := by
  have hbounds : 2 * n - d ≤ 2 * (nearest n d * d) ∧ 2 * (nearest n d * d) ≤ 2 * n + d := by
    rcases le_or_gt 0 n with hn | hn
    · have := (nearest_bounds n hd).1 hn
      omega
    · have := (nearest_bounds n hd).2 hn
      omega
  have hdiff : |(nearest n d - m) * d| < d := by
    rw [Int.sub_mul, abs_lt]
    omega
  rw [abs_mul, abs_of_pos hd] at hdiff
  have hone : |nearest n d - m| < 1 := by
    by_contra hge
    have := mul_le_mul_of_nonneg_right (not_lt.1 hge) hd.le
    omega
  have := Int.abs_lt_one_iff.1 hone
  omega

theorem isNearest_of_near {q : ℚ} {m : ℤ} (hq : 0 ≤ q) (hlow : q - 1 / 2 < m) (hhigh : m ≤ q + 1 / 2) :
    IsNearest q m := by
  have hnear : |q - m| ≤ 1 / 2 := abs_le.2 ⟨by linarith, by linarith⟩
  intro k hk
  rcases lt_or_gt_of_ne hk with hlt | hgt
  · have hstep : (k : ℚ) + 1 ≤ m := by exact_mod_cast hlt
    have habs : |q - k| = q - k := abs_of_nonneg (by linarith)
    rw [habs]
    rcases lt_or_ge |q - m| (q - k) with hless | htie
    · exact .inl hless
    -- A tie: the number lies halfway between the two, and so the upper one is above zero.
    · have hnext : (m : ℚ) < k + 2 := by linarith
      have hpos : (0 : ℚ) < m := by linarith
      have hnext' : m < k + 2 := by exact_mod_cast hnext
      have hpos' : 0 < m := by exact_mod_cast hpos
      refine .inr ⟨by linarith, ?_⟩
      rw [abs_lt, abs_of_pos hpos']
      omega
  · have hstep : (m : ℚ) + 1 ≤ k := by exact_mod_cast hgt
    have habs := neg_le_abs (q - k)
    exact .inl (by linarith)

/-- **The nearest integer**: that is what the division with half the divisor added or taken away comes to. -/
theorem isNearest_nearest (n : ℤ) {d : ℤ} (hd : 0 < d) : IsNearest (n / d) (nearest n d) := by
  have hd' : (0 : ℚ) < d := by exact_mod_cast hd
  have upward {n : ℤ} (hn : 0 ≤ n) : IsNearest (n / d) (nearest n d) := by
    obtain ⟨hlow, hhigh⟩ := (nearest_bounds n hd).1 hn
    have hlow' : (2 * n - d : ℚ) < 2 * (nearest n d * d) := by exact_mod_cast hlow
    have hhigh' : (2 * (nearest n d * d) : ℚ) ≤ 2 * n + d := by exact_mod_cast hhigh
    refine isNearest_of_near (div_nonneg (by exact_mod_cast hn) hd'.le) ?_ ?_
    · rw [sub_lt_iff_lt_add, div_lt_iff₀ hd']
      linarith
    · rw [← sub_le_iff_le_add, le_div_iff₀ hd']
      linarith
  rcases le_or_gt 0 n with hn | hn
  · exact upward hn
  · have h := (upward (n := -n) (by omega)).neg
    rw [nearest_neg n d hd, Int.neg_neg] at h
    push_cast at h
    rwa [neg_div, neg_neg] at h

theorem nearest_mono {m n d : ℤ} (hd : 0 < d) (h : m ≤ n) : nearest m d ≤ nearest n d := by
  by_contra hgt
  have hstep := Int.mul_le_mul_of_nonneg_right (Int.add_one_le_of_lt (not_le.1 hgt)) hd.le
  rw [Int.add_mul, Int.one_mul] at hstep
  have hm := nearest_bounds m hd
  have hn := nearest_bounds n hd
  omega

/-- **There and back**: what was multiplied by a fraction that is not below one, and rounded, comes back from the
inverse fraction. -/
theorem nearest_nearest (t : ℤ) {a b : ℤ} (hb : 0 < b) (hab : b ≤ a) : nearest (nearest (t * a) b * b) a = t := by
  have hbounds : 2 * (t * a) - b ≤ 2 * (nearest (t * a) b * b) ∧ 2 * (nearest (t * a) b * b) ≤ 2 * (t * a) + b := by
    have := nearest_bounds (t * a) hb
    omega
  rcases hab.lt_or_eq with hlt | rfl
  · exact nearest_eq_of_lt (by omega) (by omega) (by omega)
  · have hsame : nearest (t * b) b = t := nearest_eq_of_lt hb (by omega) (by omega)
    rw [hsame, hsame]

end Number

namespace TimeBase

open Number

/-! ## The arithmetic in words -/

def inWide (n : ℤ) : Option ℤ := if -2 ^ 127 ≤ n ∧ n < 2 ^ 127 then some n else none

/-- The quotient of two words, cut toward zero; there is none by zero. -/
def wideQuotient (n d : ℤ) : Option ℤ := if d = 0 then none else inWide (n.tdiv d)

/-- A stamp in another base, one operation on words after the other, up to where the result is cut to 64 bits; nothing
if an operation overflows or divides by zero. -/
def wideRescale (b : TimeBase) (t : Ticks) (src : TimeBase) : Option ℤ := do
  let counted ← inWide (t.toInt * src.num.toInt)
  let n ← inWide (counted * b.den.toInt)
  let d ← inWide (src.den.toInt * b.num.toInt)
  let half ← wideQuotient d 2
  let moved ← inWide (if 0 ≤ n then n + half else n - half)
  wideQuotient moved d

theorem inWide_eq {n : ℤ} (h : |n| < 2 ^ 127) : inWide n = some n := by
  obtain ⟨hlow, hhigh⟩ := abs_lt.1 h
  exact if_pos ⟨hlow.le, hhigh⟩

theorem wideQuotient_eq {n d : ℤ} (hn : |n| < 2 ^ 127) (hd : 0 < d) : wideQuotient n d = some (n.tdiv d) := by
  rw [wideQuotient, if_neg hd.ne', inWide_eq]
  refine lt_of_le_of_lt ?_ hn
  rw [Int.abs_eq_natAbs, Int.abs_eq_natAbs, Int.natAbs_tdiv]
  exact_mod_cast Nat.div_le_self _ _

theorem abs_mul_le_pow {x y : ℤ} {m n : ℕ} (hx : |x| ≤ 2 ^ m) (hy : |y| ≤ 2 ^ n) : |x * y| ≤ 2 ^ (m + n) := by
  rw [abs_mul, pow_add]
  exact mul_le_mul hx hy (abs_nonneg y) (by positivity)

theorem abs_part_le (n : Int32) : |n.toInt| ≤ 2 ^ 31 := abs_le.2 ⟨n.le_toInt, n.toInt_lt.le⟩

theorem isValid_iff (b : TimeBase) : b.isValid = true ↔ 0 < b.num.toInt ∧ 0 < b.den.toInt := by
  simp [isValid]

theorem tdiv_moved (n : ℤ) {d : ℤ} (hd : 0 < d) :
    (if 0 ≤ n then n + d / 2 else n - d / 2).tdiv d = nearest n d := by
  rcases le_or_gt 0 n with hn | hn
  · rw [if_pos hn, nearest, if_pos hn]
    exact Int.tdiv_eq_ediv_of_nonneg (by omega)
  · have hswap : n - d / 2 = -(d / 2 - n) := by omega
    rw [if_neg hn.not_ge, nearest, if_neg hn.not_ge, hswap, Int.neg_tdiv, Int.tdiv_eq_ediv_of_nonneg (by omega)]

/-- **No operation overflows**, and none divides by zero. -/
theorem wideRescale_eq {a b : TimeBase} (ha : a.isValid = true) (hb : b.isValid = true) (t : Ticks) :
    b.wideRescale t a = some (b.exactRescale t.toInt a) := by
  obtain ⟨-, haden⟩ := a.isValid_iff.1 ha
  obtain ⟨hbnum, -⟩ := b.isValid_iff.1 hb
  have ht : |t.toInt| ≤ 2 ^ 63 := abs_le.2 ⟨t.le_toInt, t.toInt_lt.le⟩
  have hcounted : |t.toInt * a.num.toInt| ≤ 2 ^ 94 := abs_mul_le_pow ht (abs_part_le _)
  have hn : |t.toInt * a.num.toInt * b.den.toInt| ≤ 2 ^ 125 := abs_mul_le_pow hcounted (abs_part_le _)
  have hd : |a.den.toInt * b.num.toInt| ≤ 2 ^ 62 := abs_mul_le_pow (abs_part_le _) (abs_part_le _)
  have hpos : 0 < a.den.toInt * b.num.toInt := Int.mul_pos haden hbnum
  rw [wideRescale, exactRescale, inWide_eq (by omega), Option.bind_eq_bind, Option.bind_some, inWide_eq (by omega)]
  generalize t.toInt * a.num.toInt * b.den.toInt = n at *
  generalize a.den.toInt * b.num.toInt = d at *
  have hhalf : d.tdiv 2 = d / 2 := Int.tdiv_eq_ediv_of_nonneg hpos.le
  have hmoved : |if 0 ≤ n then n + d / 2 else n - d / 2| < 2 ^ 127 := by
    rw [abs_le] at hn hd
    rw [abs_lt]
    split <;> omega
  simp only [Option.bind_some, inWide_eq (lt_of_le_of_lt hd (by norm_num)),
    wideQuotient_eq (lt_of_le_of_lt hd (by norm_num)) (by norm_num : (0 : ℤ) < 2), hhalf, inWide_eq hmoved,
    wideQuotient_eq hmoved hpos, tdiv_moved n hpos]

/-! ## Stamps in another base -/

def tick (b : TimeBase) : ℚ := b.num.toInt / b.den.toInt

def Holds (b : TimeBase) (t : Ticks) (src : TimeBase) : Prop :=
  b.isValid = true → src.isValid = true → -2 ^ 63 ≤ b.exactRescale t.toInt src ∧ b.exactRescale t.toInt src < 2 ^ 63

theorem rescale_of_valid {a b : TimeBase} (ha : a.isValid = true) (hb : b.isValid = true) (t : Ticks) :
    b.rescale t a = low64 (b.exactRescale t.toInt a) := by
  rw [rescale, ha, hb]
  rfl

theorem rescale_of_invalid {a b : TimeBase} (h : ¬ (a.isValid = true ∧ b.isValid = true)) (t : Ticks) :
    b.rescale t a = t := by
  rw [rescale, if_neg (by rw [Bool.and_eq_true]; exact fun hv => h hv.symm)]

theorem toInt_rescale {a b : TimeBase} {t : Ticks} (ha : a.isValid = true) (hb : b.isValid = true) (h : b.Holds t a) :
    (b.rescale t a).toInt = b.exactRescale t.toInt a := by
  obtain ⟨hlow, hhigh⟩ := h hb ha
  rw [rescale_of_valid ha hb]
  exact Int64.toInt_ofInt_of_le hlow hhigh

theorem isNearest_exactRescale {a b : TimeBase} (ha : a.isValid = true) (hb : b.isValid = true) (t : ℤ) :
    IsNearest (t * a.tick / b.tick) (b.exactRescale t a) := by
  obtain ⟨-, haden⟩ := a.isValid_iff.1 ha
  obtain ⟨hbnum, hbden⟩ := b.isValid_iff.1 hb
  have h := isNearest_nearest (t * a.num.toInt * b.den.toInt) (Int.mul_pos haden hbnum)
  have hq : ((t * a.num.toInt * b.den.toInt : ℤ) : ℚ) / (a.den.toInt * b.num.toInt : ℤ) = t * a.tick / b.tick := by
    have haden' : (a.den.toInt : ℚ) ≠ 0 := by exact_mod_cast haden.ne'
    have hbnum' : (b.num.toInt : ℚ) ≠ 0 := by exact_mod_cast hbnum.ne'
    have hbden' : (b.den.toInt : ℚ) ≠ 0 := by exact_mod_cast hbden.ne'
    rw [tick, tick]
    push_cast
    field_simp
  rwa [hq] at h

theorem tick_le_iff {a b : TimeBase} (ha : a.isValid = true) (hb : b.isValid = true) :
    b.tick ≤ a.tick ↔ a.den.toInt * b.num.toInt ≤ a.num.toInt * b.den.toInt := by
  obtain ⟨-, haden⟩ := a.isValid_iff.1 ha
  obtain ⟨-, hbden⟩ := b.isValid_iff.1 hb
  rw [tick, tick, div_le_div_iff₀ (by exact_mod_cast hbden) (by exact_mod_cast haden), mul_comm]
  exact_mod_cast Iff.rfl

theorem exactRescale_mono {a b : TimeBase} (ha : a.isValid = true) (hb : b.isValid = true) {t u : ℤ} (h : t ≤ u) :
    b.exactRescale t a ≤ b.exactRescale u a := by
  obtain ⟨hanum, haden⟩ := a.isValid_iff.1 ha
  obtain ⟨hbnum, hbden⟩ := b.isValid_iff.1 hb
  refine nearest_mono (Int.mul_pos haden hbnum) ?_
  exact Int.mul_le_mul_of_nonneg_right (Int.mul_le_mul_of_nonneg_right h hanum.le) hbden.le

theorem exactRescale_neg {a b : TimeBase} (ha : a.isValid = true) (hb : b.isValid = true) (t : ℤ) :
    b.exactRescale (-t) a = -b.exactRescale t a := by
  rw [exactRescale, Int.neg_mul, Int.neg_mul]
  exact nearest_neg _ _ (Int.mul_pos (a.isValid_iff.1 ha).2 (b.isValid_iff.1 hb).1)

theorem exactRescale_back {a b : TimeBase} (ha : a.isValid = true) (hb : b.isValid = true) (h : b.tick ≤ a.tick)
    (t : ℤ) : a.exactRescale (b.exactRescale t a) b = t := by
  have hpos : 0 < a.den.toInt * b.num.toInt := Int.mul_pos (a.isValid_iff.1 ha).2 (b.isValid_iff.1 hb).1
  rw [exactRescale, exactRescale, Int.mul_assoc t, Int.mul_assoc _ b.num.toInt, Int.mul_comm b.num.toInt,
    Int.mul_comm b.den.toInt]
  exact nearest_nearest t hpos ((tick_le_iff ha hb).1 h)

/-- **A stamp in another base is the nearest tick there.**  Between bases of which one is invalid a stamp stays what
it is.  Otherwise the arithmetic in words comes to the nearest tick, a tie going away from zero, and only the last cut
to 64 bits may lose anything.  Where that loses nothing, the order of stamps is kept, the stamp of the opposite time is
the opposite stamp, and on the way to a base that is at least as fine and back every stamp is kept. -/
theorem rescale_rounds (a b : TimeBase) :
    (¬ (a.isValid = true ∧ b.isValid = true) → ∀ t, b.rescale t a = t) ∧
    (a.isValid = true → b.isValid = true → ∀ t : Ticks, ∃ n, b.wideRescale t a = some n ∧
      IsNearest (t.toInt * a.tick / b.tick) n ∧ b.rescale t a = low64 n) ∧
    (∀ t u : Ticks, b.Holds t a → b.Holds u a →
      (t ≤ u → b.rescale t a ≤ b.rescale u a) ∧
      (u.toInt = -t.toInt → (b.rescale u a).toInt = -(b.rescale t a).toInt)) ∧
    (b.tick ≤ a.tick → ∀ t : Ticks, b.Holds t a → a.rescale (b.rescale t a) b = t) := by
  refine ⟨fun h => rescale_of_invalid h, fun ha hb t => ?_, fun t u ht hu => ?_, fun hfine t ht => ?_⟩
  · exact ⟨_, wideRescale_eq ha hb t, isNearest_exactRescale ha hb t.toInt, rescale_of_valid ha hb t⟩
  · by_cases hv : a.isValid = true ∧ b.isValid = true
    · obtain ⟨ha, hb⟩ := hv
      rw [Int64.le_iff_toInt_le, Int64.le_iff_toInt_le, toInt_rescale ha hb ht, toInt_rescale ha hb hu]
      refine ⟨exactRescale_mono ha hb, fun hneg => ?_⟩
      rw [hneg, exactRescale_neg ha hb]
    · rw [rescale_of_invalid hv, rescale_of_invalid hv]
      exact ⟨id, id⟩
  · by_cases hv : a.isValid = true ∧ b.isValid = true
    · obtain ⟨ha, hb⟩ := hv
      rw [rescale_of_valid hb ha, toInt_rescale ha hb ht, exactRescale_back ha hb hfine]
      exact Int64.ofInt_toInt t
    · rw [rescale_of_invalid hv, rescale_of_invalid (fun h => hv h.symm)]

/-- Frames at 30000 / 1001 in a second, in microseconds and back. -/
theorem rescale_rounds_frames :
    let frames : TimeBase := ⟨1001, 30000⟩
    frames.isValid = true ∧ micros.isValid = true ∧ micros.tick ≤ frames.tick ∧
      micros.Holds 7 frames ∧ micros.Holds (-7) frames ∧
      micros.rescale 7 frames = 233567 ∧ micros.wideRescale 7 frames = some 233567 ∧
      (micros.rescale (-7) frames).toInt = -233567 ∧ micros.rescale (-7) frames ≤ micros.rescale 7 frames ∧
      frames.rescale (micros.rescale (-7) frames) micros = -7 := by
  intro frames
  have hframes : frames.isValid = true := by decide
  have hmicros : micros.isValid = true := by decide
  have hfine : micros.tick ≤ frames.tick := (tick_le_iff hframes hmicros).2 (by decide)
  have hplus : micros.Holds 7 frames := fun _ _ => by decide +kernel
  have hminus : micros.Holds (-7) frames := fun _ _ => by decide +kernel
  obtain ⟨-, hwords, hlaws, hback⟩ := rescale_rounds frames micros
  obtain ⟨n, hn, -, hseven⟩ := hwords hframes hmicros 7
  have hvalue : micros.wideRescale 7 frames = some 233567 := by decide +kernel
  obtain rfl : n = 233567 := Option.some.inj (hn.symm.trans hvalue)
  have hneg := (hlaws 7 (-7) hplus hminus).2 (by decide)
  rw [hseven] at hneg ⊢
  rw [hneg]
  refine ⟨hframes, hmicros, hfine, hplus, hminus, rfl, hvalue, rfl, ?_, hback hfine (-7) hminus⟩
  rw [← hseven]
  exact (hlaws (-7) 7 hminus hplus).1 (by decide)

end TimeBase
end Playhead
