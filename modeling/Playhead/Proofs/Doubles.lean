import Mathlib
import Playhead.Number.Rounding
/-!
# Doubles — the numbers that doubles stand for

A double that is neither negative nor infinite is a whole number of units, and the unit is a power of two
(`Double.Canonical`); `Double.Denotes` says which number it is.  Sum, product and quotient of two doubles are the double
of a number that is no further from the exact one than the unit at a bound of it (`Denotes.add`, `Denotes.mul`,
`Denotes.div`), a whole number below `2 ^ 53` is a double (`denotes_ofNat`), doubles compare as their numbers do
(`Denotes.lt_iff`), and they are cut to the whole numbers below them (`Denotes.toInt64`).  The errors are not the best
ones: nothing here needs to know which of two neighbours is nearer.
-/
namespace Playhead
namespace Double

open Float.Model Float.Model.UnpackedFloat

/-- `m * 2 ^ e` as the format counts it: 53 bits, of which the highest is set if the unit is not the smallest one. -/
structure Canonical (m : Nat) (e : Int) : Prop where
  bits : m < 2 ^ 53
  least : -1074 ≤ e
  most : e ≤ 971
  full : 2 ^ 52 ≤ m ∨ e = -1074

/-- A double is this number. -/
inductive Denotes (x : Float) : ℚ → Prop
  | zero (hx : x.toModel.unpack = .zero .positive) : Denotes x 0
  | finite {m : Nat} {e : Int} (hm : 0 < m) (hc : Canonical m e) (hx : x.toModel.unpack = .finite .positive m e hm) :
      Denotes x (m * 2 ^ e)

/-! ## Packing -/

theorem toNat_implicit (m : BitVec 52) : (1#1 ++ m).toNat = 2 ^ 52 + m.toNat := by
  rw [BitVec.toNat_append, ← Nat.shiftLeft_add_eq_or_of_lt m.isLt]
  rfl

theorem unpack_normal {b m : Nat} (hm : m < 2 ^ 52) (hb : 0 < b) (hb' : b < 2047) :
    UnpackedFloat.unpack Format.binary64
        (packComponents Format.binary64 .positive (BitVec.ofNat 11 b) (BitVec.ofNat 52 m)) =
      .finite .positive (2 ^ 52 + m) (b - 1075) (Nat.add_pos_left (by decide) _) := by
  have hexp : (BitVec.ofNat 11 b).toNat = b := by rw [BitVec.toNat_ofNat, Nat.mod_eq_of_lt (by omega)]
  have hmant : (BitVec.ofNat 52 m).toNat = m := by rw [BitVec.toNat_ofNat, Nat.mod_eq_of_lt hm]
  have hzero : BitVec.ofNat 11 b ≠ 0#11 := fun h => hb.ne' (hexp.symm.trans (congrArg BitVec.toNat h))
  have hones : BitVec.ofNat 11 b ≠ -1#11 := fun h => hb'.ne (hexp.symm.trans (congrArg BitVec.toNat h))
  unfold UnpackedFloat.unpack
  simp only [unpackMantissa_packComponents, unpackExponent_packComponents, unpackSign_packComponents,
    Sign.ofBitVec_toBitVec, hzero, hones, if_false, hexp, toNat_implicit, hmant]
  rfl

theorem unpack_subnormal {m : Nat} (hm : m < 2 ^ 52) (hp : 0 < m) :
    UnpackedFloat.unpack Format.binary64
        (packComponents Format.binary64 .positive 0#11 (BitVec.ofNat 52 m)) = .finite .positive m (-1074) hp := by
  have hmant : (BitVec.ofNat 52 m).toNat = m := by rw [BitVec.toNat_ofNat, Nat.mod_eq_of_lt hm]
  have hzero : BitVec.ofNat 52 m ≠ 0#52 := fun h => hp.ne' (hmant.symm.trans (congrArg BitVec.toNat h))
  have hones : (0#11) ≠ -1#11 := by decide
  unfold UnpackedFloat.unpack
  simp only [unpackMantissa_packComponents, unpackExponent_packComponents, unpackSign_packComponents,
    Sign.ofBitVec_toBitVec, hzero, hones, if_false, if_true, hmant]
  rfl

theorem unpack_pack {m : Nat} {e : Int} (hm : 0 < m) (hc : Canonical m e) :
    (Float.Model.pack (.finite .positive m e hm)).unpack = .finite .positive m e hm := by
  obtain ⟨hbits, hleast, hmost, hfull⟩ := hc
  have hbias : (e + (Format.binary64.exponentBias : Int) + (52 : Nat)).toNat = (e + 1075).toNat := by
    have hb : Format.binary64.exponentBias = 1023 := rfl
    rw [hb]
    congr 1
    omega
  have hsmall : ¬ 2 ^ 11 ≤ (e + 1075).toNat + 1 := by omega
  change UnpackedFloat.unpack Format.binary64 (UnpackedFloat.pack Format.binary64 (.finite .positive m e hm)) = _
  unfold UnpackedFloat.pack
  simp only [hbias, hsmall, if_false]
  by_cases hn : 2 ^ 52 ≤ m
  · have hlog : m.log2 + 1 = Format.binary64.mantissaBits := by
      rw [(Nat.log2_eq_iff hm.ne').2 ⟨hn, hbits⟩]
      rfl
    have hclear : BitVec.ofNat 52 m = BitVec.ofNat 52 (m - 2 ^ 52) := by
      apply BitVec.eq_of_toNat_eq
      rw [BitVec.toNat_ofNat, BitVec.toNat_ofNat]
      omega
    rw [if_pos hlog, hclear, unpack_normal (by omega) (by omega) (by omega)]
    rw [UnpackedFloat.finite.injEq]
    exact ⟨rfl, by omega, by omega⟩
  · have hlog : ¬ m.log2 + 1 = Format.binary64.mantissaBits := by
      have hlt := (Nat.log2_lt hm.ne').2 (Nat.lt_of_not_le hn)
      change ¬ m.log2 + 1 = 53
      omega
    have he : e = -1074 := hfull.resolve_left hn
    subst he
    rw [if_neg hlog, unpack_subnormal (Nat.lt_of_not_le hn) hm]

/-! ## Rounding -/

theorem mantissa_shift (x : ExtendedMantissa) (k : Nat) : (x >>> k).mantissa = x.mantissa / 2 ^ k := by
  induction k with
  | zero => rw [Nat.pow_zero, Nat.div_one]; rfl
  | succ k ih =>
    change (x >>> k).mantissa / 2 = _
    rw [ih, Nat.div_div_eq_div_mul, Nat.pow_succ]

theorem shift_exact (m k : Nat) : (⟨m * 2 ^ k, false, false⟩ : ExtendedMantissa) >>> k = ⟨m, false, false⟩ := by
  induction k generalizing m with
  | zero => rw [Nat.pow_zero, Nat.mul_one]; rfl
  | succ k ih =>
    change ((⟨m * 2 ^ (k + 1), false, false⟩ : ExtendedMantissa) >>> k).shiftRightOne = _
    rw [Nat.pow_succ, Nat.mul_comm (2 ^ k) 2, ← Nat.mul_assoc, ih]
    simp [ExtendedMantissa.shiftRightOne]

theorem roundedMantissa_shift {m k : Nat} (h : 2 ^ k ∣ m) :
    (ExtendedMantissa.ofMantissaAndAccuracy m .exact >>> k).roundedMantissa = m / 2 ^ k := by
  obtain ⟨q, rfl⟩ := h
  rw [Nat.mul_div_cancel_left _ (Nat.two_pow_pos _), Nat.mul_comm]
  exact congrArg ExtendedMantissa.roundedMantissa (shift_exact q k)

theorem roundedMantissa_near (x : ExtendedMantissa) :
    x.mantissa ≤ x.roundedMantissa ∧ x.roundedMantissa ≤ x.mantissa + 1 := by
  rcases x with ⟨m, round, sticky⟩
  cases round <;> cases sticky <;>
    simp only [ExtendedMantissa.roundedMantissa, ExtendedMantissa.accuracy, Accuracy.roundToNearestEven] <;> omega

/-- The unit in which the format counts a number `m * 2 ^ e`. -/
def unit (m : Nat) (e : Int) : Int := max (m.log2 + e - 52) (-1074)

theorem targetExponent_eq (m : Nat) (e : Int) : Format.binary64.targetExponent (totalExponent m e) = unit m e := by
  change max ((m.log2 : Int) + 1 + e - (1 + 52 : Nat)) (3 - 2 ^ (11 - 1) - (1 + 52 : Nat)) = _
  unfold unit
  omega

theorem shiftToTargetExponent_eq (m : Nat) (e : Int) (a : Accuracy) :
    shiftToTargetExponent Format.binary64 m e a =
      (ExtendedMantissa.ofMantissaAndAccuracy m a >>> (unit m e - e).toNat, e + (unit m e - e).toNat) := by
  unfold shiftToTargetExponent
  rw [targetExponent_eq]
  rfl

/-- The last step of rounding: a mantissa that was rounded up may have a bit too many. -/
def settled (s : ExtendedMantissa × Int) : UnpackedFloat :=
  if h : s.1.mantissa = 0 then .zero .positive else .finite .positive s.1.mantissa s.2 (Nat.pos_of_ne_zero h)

theorem denotes_settled {r : Nat} {t : Int} (hr : r ≤ 2 ^ 53) (ht : -1074 ≤ t) (ht' : t ≤ 970)
    (hfull : 2 ^ 52 ≤ r ∨ t = -1074) :
    Denotes (.ofModel (Float.Model.pack (settled (shiftToTargetExponent Format.binary64 r t .exact)))) (r * 2 ^ t) := by
  rw [shiftToTargetExponent_eq]
  rcases Nat.lt_or_ge r (2 ^ 53) with hlt | hge
  · have hc : Canonical r t := ⟨hlt, ht, by omega, hfull⟩
    have hunit : (unit r t - t).toNat = 0 := by
      have hlog : r.log2 ≤ 52 := by
        by_cases h : r = 0
        · rw [h]
          decide
        · exact Nat.le_of_lt_succ ((Nat.log2_lt h).2 hlt)
      unfold unit
      omega
    rw [hunit]
    change Denotes (.ofModel (Float.Model.pack (if h : r = 0 then .zero .positive else
      .finite .positive r (t + 0) (Nat.pos_of_ne_zero h)))) _
    rw [Int.add_zero]
    by_cases h : r = 0
    · rw [dif_pos h, h, Nat.cast_zero, zero_mul]
      exact .zero rfl
    · rw [dif_neg h]
      exact .finite _ hc (unpack_pack _ hc)
  · have h : r = 2 ^ 53 := Nat.le_antisymm hr hge
    subst h
    have hc : Canonical (2 ^ 52) (t + 1) := ⟨by decide, by omega, by omega, .inl le_rfl⟩
    have hunit : (unit (2 ^ 53) t - t).toNat = 1 := by
      unfold unit
      rw [Nat.log2_two_pow]
      omega
    have hv : ((2 ^ 53 : Nat) : ℚ) * 2 ^ t = (2 ^ 52 : Nat) * 2 ^ (t + 1) := by
      rw [zpow_add₀ (by norm_num)]
      push_cast
      ring
    rw [hunit, hv]
    exact .finite (by decide) hc (unpack_pack _ hc)

/-- **Rounding**: a number that is given in units no coarser than those of the format comes to a whole number of
these, one of the two next to it, or itself. -/
theorem denotes_round {m : Nat} {e : Int} (hm : m ≠ 0) (hfit : e ≤ unit m e) (htop : unit m e ≤ 970) (a : Accuracy) :
    ∃ r : Nat, m / 2 ^ (unit m e - e).toNat ≤ r ∧ r ≤ m / 2 ^ (unit m e - e).toNat + 1 ∧
      (a = .exact → 2 ^ (unit m e - e).toNat ∣ m → r = m / 2 ^ (unit m e - e).toNat) ∧
      Denotes (.ofModel (Float.Model.pack (roundWithAccuracy Format.binary64 .positive m e a))) (r * 2 ^ unit m e) := by
  have hround : roundWithAccuracy Format.binary64 .positive m e a =
      settled (shiftToTargetExponent Format.binary64 (shiftToTargetExponent Format.binary64 m e a).1.roundedMantissa
        (shiftToTargetExponent Format.binary64 m e a).2 .exact) := rfl
  rw [hround, shiftToTargetExponent_eq m e a]
  have hunit : e + (unit m e - e).toNat = unit m e := by omega
  have hdef : unit m e = max (m.log2 + e - 52) (-1074) := rfl
  have hfloor : m / 2 ^ (unit m e - e).toNat < 2 ^ 53 := by
    rw [Nat.div_lt_iff_lt_mul (Nat.two_pow_pos _), ← Nat.pow_add]
    exact Nat.lt_of_lt_of_le Nat.lt_log2_self (Nat.pow_le_pow_right (by decide) (by omega))
  have hfull : 2 ^ 52 ≤ m / 2 ^ (unit m e - e).toNat ∨ unit m e = -1074 := by
    by_cases h : unit m e = -1074
    · exact .inr h
    · left
      rw [Nat.le_div_iff_mul_le (Nat.two_pow_pos _), ← Nat.pow_add]
      exact Nat.le_trans (Nat.pow_le_pow_right (by decide) (by omega)) (Nat.log2_self_le hm)
  have hmant : (ExtendedMantissa.ofMantissaAndAccuracy m a >>> (unit m e - e).toNat).mantissa =
      m / 2 ^ (unit m e - e).toNat := by
    rw [mantissa_shift]
    rcases a with _ | (_ | _ | _) <;> rfl
  obtain ⟨hlow, hhigh⟩ := roundedMantissa_near (ExtendedMantissa.ofMantissaAndAccuracy m a >>> (unit m e - e).toNat)
  rw [hmant] at hlow hhigh
  refine ⟨_, hlow, hhigh, ?_, ?_⟩
  · rintro rfl hdvd
    exact roundedMantissa_shift hdvd
  · rw [hunit]
    exact denotes_settled (hhigh.trans hfloor) (by omega) htop (hfull.imp_left (fun h => h.trans hlow))

theorem unit_le {m : Nat} {e N : Int} (hm : m ≠ 0) (hN : -1022 ≤ N) (h : (m : ℚ) * 2 ^ e ≤ 2 ^ N) :
    unit m e ≤ N - 52 := by
  have hlog : (2 : ℚ) ^ (m.log2 : Int) ≤ m := by
    rw [zpow_natCast]
    exact_mod_cast Nat.log2_self_le hm
  have hpow : (2 : ℚ) ^ (m.log2 + e : Int) ≤ 2 ^ N := by
    rw [zpow_add₀ (by norm_num)]
    exact (mul_le_mul_of_nonneg_right hlog (by positivity)).trans h
  have hle : (m.log2 : Int) + e ≤ N := (zpow_le_zpow_iff_right₀ (by norm_num)).1 hpow
  unfold unit
  omega

theorem denotes_round_near {m : Nat} {e : Int} (hm : m ≠ 0) (hfit : e ≤ unit m e) (htop : unit m e ≤ 970)
    (a : Accuracy) :
    ∃ c, Denotes (.ofModel (Float.Model.pack (roundWithAccuracy Format.binary64 .positive m e a))) c ∧
      |c - m * 2 ^ e| ≤ 2 ^ unit m e := by
  obtain ⟨r, hlow, hhigh, -, hr⟩ := denotes_round hm hfit htop a
  refine ⟨_, hr, ?_⟩
  obtain ⟨k, hk⟩ : ∃ k : Nat, unit m e = e + k := ⟨(unit m e - e).toNat, by omega⟩
  have hk' : (unit m e - e).toNat = k := by omega
  rw [hk'] at hlow hhigh
  have hd := Nat.div_add_mod m (2 ^ k)
  have hmod := Nat.mod_lt m (Nat.two_pow_pos k)
  have hlow' : m ≤ r * 2 ^ k + 2 ^ k := by
    have := Nat.mul_le_mul_left (2 ^ k) hlow
    rw [Nat.mul_comm r]
    omega
  have hhigh' : r * 2 ^ k ≤ m + 2 ^ k := by
    have := Nat.mul_le_mul_left (2 ^ k) hhigh
    rw [Nat.mul_add, Nat.mul_one] at this
    rw [Nat.mul_comm r]
    omega
  have hl : (m : ℚ) ≤ r * 2 ^ k + 2 ^ k := by exact_mod_cast hlow'
  have hh : (r : ℚ) * 2 ^ k ≤ m + 2 ^ k := by exact_mod_cast hhigh'
  have he : (0 : ℚ) < 2 ^ e := by positivity
  have hpow : (2 : ℚ) ^ unit m e = 2 ^ k * 2 ^ e := by
    rw [hk, zpow_add₀ (by norm_num), zpow_natCast, mul_comm]
  rw [hpow, ← mul_assoc, ← sub_mul, abs_mul, abs_of_pos he]
  exact mul_le_mul_of_nonneg_right (abs_le.2 ⟨by linarith, by linarith⟩) he.le

/-! ## Arithmetic -/

variable {x y : Float} {a b : ℚ}

theorem Canonical.unit_eq {m : Nat} {e : Int} (hm : 0 < m) (h : Canonical m e) : unit m e = e := by
  obtain ⟨hbits, hleast, -, hfull⟩ := h
  have hlog : m.log2 < 53 := (Nat.log2_lt hm.ne').2 hbits
  unfold unit
  rcases hfull with hfull | hfull
  · have := (Nat.le_log2 hm.ne').2 hfull
    omega
  · omega

theorem Denotes.nonneg (h : Denotes x a) : 0 ≤ a := by
  cases h with
  | zero hx => exact le_rfl
  | finite hm hc hx => positivity

/-- **The product of two doubles.** -/
theorem Denotes.mul (hx : Denotes x a) (hy : Denotes y b) {N : Int} (hN : -1022 ≤ N) (hN' : N ≤ 1022)
    (h : a * b ≤ 2 ^ N) : ∃ c, Denotes (x * y) c ∧ |c - a * b| ≤ 2 ^ (N - 52) := by
  have hxy : x * y = .ofModel (Float.Model.pack
    (UnpackedFloat.mul Format.binary64 x.toModel.unpack y.toModel.unpack)) := rfl
  have zero (hz : UnpackedFloat.mul Format.binary64 x.toModel.unpack y.toModel.unpack = .zero .positive)
      (hab : a * b = 0) : ∃ c, Denotes (x * y) c ∧ |c - a * b| ≤ 2 ^ (N - 52) := by
    refine ⟨0, ?_, ?_⟩
    · rw [hxy, hz]
      exact .zero rfl
    · rw [hab, sub_zero, abs_zero]
      positivity
  cases hx with
  | zero hx =>
    cases hy with
    | zero hy => exact zero (by rw [hx, hy]; rfl) (zero_mul _)
    | finite hm hc hy => exact zero (by rw [hx, hy]; rfl) (zero_mul _)
  | @finite m e hm hc hx =>
    cases hy with
    | zero hy => exact zero (by rw [hx, hy]; rfl) (mul_zero _)
    | @finite n f hn hd hy =>
      have hv : ((m : ℚ) * 2 ^ e) * (n * 2 ^ f) = (m * n : Nat) * 2 ^ (e + f) := by
        rw [zpow_add₀ (by norm_num)]
        push_cast
        ring
      have hmn : m * n ≠ 0 := (Nat.mul_pos hm hn).ne'
      rw [hv] at h ⊢
      have hunit := unit_le hmn hN h
      have hfit : e + f ≤ unit (m * n) (e + f) := by
        have full (hfull : 2 ^ 52 ≤ m * n) : e + f ≤ unit (m * n) (e + f) := by
          have hlog := (Nat.le_log2 hmn).2 hfull
          unfold unit
          omega
        rcases hc.full with hfull | rfl
        · exact full (hfull.trans (Nat.le_mul_of_pos_right m hn))
        rcases hd.full with hfull | rfl
        · exact full (hfull.trans (Nat.le_mul_of_pos_left n hm))
        · unfold unit
          omega
      obtain ⟨c, hc', herr⟩ := denotes_round_near hmn hfit (by omega) .exact
      rw [hxy, hx, hy]
      exact ⟨c, hc', herr.trans (zpow_le_zpow_right₀ (by norm_num) hunit)⟩

/-! ### Finer units -/

theorem log2_scale {m : Nat} (hm : m ≠ 0) (k : Nat) : (m * 2 ^ k).log2 = m.log2 + k := by
  rw [Nat.log2_eq_iff (Nat.mul_ne_zero hm (Nat.two_pow_pos k).ne'), Nat.pow_add, Nat.add_right_comm, Nat.pow_add]
  exact ⟨Nat.mul_le_mul_right _ (Nat.log2_self_le hm),
    Nat.mul_lt_mul_of_pos_right Nat.lt_log2_self (Nat.two_pow_pos k)⟩

theorem unit_scale {m : Nat} (hm : m ≠ 0) (e : Int) (k : Nat) : unit (m * 2 ^ k) (e - k) = unit m e := by
  unfold unit
  rw [log2_scale hm]
  push_cast
  omega

theorem value_scale (m : Nat) (e : Int) (k : Nat) : ((m * 2 ^ k : Nat) : ℚ) * 2 ^ (e - k) = m * 2 ^ e := by
  rw [zpow_sub₀ (by norm_num), zpow_natCast]
  push_cast
  field_simp

theorem normalize_eq {m : Nat} (hm : m ≠ 0) (e : Int) :
    UnpackedFloat.normalize Format.binary64 m e .positive =
      roundWithAccuracy Format.binary64 .positive (m * 2 ^ (e - unit m e).toNat) (e - (e - unit m e).toNat) .exact := by
  unfold UnpackedFloat.normalize
  rw [Int.compare_eq_gt.2 (by omega)]
  change UnpackedFloat.round Format.binary64 .positive m e = _
  unfold UnpackedFloat.round
  rw [targetExponent_eq, ← Nat.shiftLeft_eq]
  rfl

theorem denotes_normalize {m : Nat} {e N : Int} (hm : m ≠ 0) (hN : -1022 ≤ N) (hN' : N ≤ 1022)
    (h : (m : ℚ) * 2 ^ e ≤ 2 ^ N) :
    ∃ c, Denotes (.ofModel (Float.Model.pack (UnpackedFloat.normalize Format.binary64 m e .positive))) c ∧
      |c - m * 2 ^ e| ≤ 2 ^ (N - 52) := by
  have hunit := unit_le hm hN h
  rw [normalize_eq hm]
  generalize hk : (e - unit m e).toNat = k
  have hsame := unit_scale hm e k
  have hfit : e - k ≤ unit (m * 2 ^ k) (e - k) := by omega
  obtain ⟨c, hc, herr⟩ := denotes_round_near (Nat.mul_ne_zero hm (Nat.two_pow_pos k).ne') hfit (by omega) .exact
  rw [value_scale, hsame] at herr
  exact ⟨c, hc, herr.trans (zpow_le_zpow_right₀ (by norm_num) hunit)⟩

theorem denotes_normalize_exact {m : Nat} {e : Int} (hm : m ≠ 0) (hunit : unit m e ≤ e) (htop : unit m e ≤ 970) :
    Denotes (.ofModel (Float.Model.pack (UnpackedFloat.normalize Format.binary64 m e .positive))) (m * 2 ^ e) := by
  rw [normalize_eq hm]
  generalize hk : (e - unit m e).toNat = k
  have hsame := unit_scale hm e k
  have hfit : e - k = unit (m * 2 ^ k) (e - k) := by omega
  obtain ⟨r, -, -, hexact, hr⟩ := denotes_round (Nat.mul_ne_zero hm (Nat.two_pow_pos k).ne') hfit.le (by omega) .exact
  have hzero : (unit (m * 2 ^ k) (e - k) - (e - k)).toNat = 0 := by omega
  rw [hzero, Nat.pow_zero, Nat.div_one] at hexact
  rw [hexact rfl (one_dvd _), ← hfit, value_scale] at hr
  exact hr

/-- **The sum of two doubles.** -/
theorem Denotes.add (hx : Denotes x a) (hy : Denotes y b) {N : Int} (hN : -1022 ≤ N) (hN' : N ≤ 1022)
    (h : a + b ≤ 2 ^ N) : ∃ c, Denotes (x + y) c ∧ |c - (a + b)| ≤ 2 ^ (N - 52) := by
  have hxy : x + y = .ofModel (Float.Model.pack
    (UnpackedFloat.add Format.binary64 x.toModel.unpack y.toModel.unpack)) := rfl
  have same {c : ℚ} {z : Float} (hz : Denotes z c) (hab : a + b = c)
      (hu : UnpackedFloat.add Format.binary64 x.toModel.unpack y.toModel.unpack = z.toModel.unpack) :
      ∃ c, Denotes (x + y) c ∧ |c - (a + b)| ≤ 2 ^ (N - 52) := by
    refine ⟨c, ?_, ?_⟩
    · rw [hxy, hu]
      cases hz with
      | zero hz =>
        rw [hz]
        exact .zero rfl
      | finite hm hc hz =>
        rw [hz]
        exact .finite hm hc (unpack_pack hm hc)
    · rw [hab, sub_self, abs_zero]
      positivity
  cases hx with
  | zero hx =>
    refine same hy (zero_add b) ?_
    cases hy with
    | zero hy => rw [hx, hy]; rfl
    | finite hm hc hy => rw [hx, hy]; rfl
  | @finite m e hm hc hx =>
    cases hy with
    | zero hy => exact same (.finite hm hc hx) (add_zero _) (by rw [hx, hy]; rfl)
    | @finite n f hn hd hy =>
      have hsum : UnpackedFloat.add Format.binary64 x.toModel.unpack y.toModel.unpack =
          UnpackedFloat.normalize Format.binary64
            (m <<< (e - min e f).toNat + n <<< (f - min e f).toNat : Nat) (min e f) .positive := by
        rw [hx, hy]
        rfl
      have scaled (k : Nat) (g : Int) (hg : min e f ≤ g) :
          ((k <<< (g - min e f).toNat : Nat) : ℚ) * 2 ^ min e f = k * 2 ^ g := by
        have hmin : min e f = g - (g - min e f).toNat := by omega
        rw [Nat.shiftLeft_eq, ← value_scale k g (g - min e f).toNat, ← hmin]
      have hv : ((m <<< (e - min e f).toNat + n <<< (f - min e f).toNat : Nat) : ℚ) * 2 ^ min e f =
          m * 2 ^ e + n * 2 ^ f := by
        rw [Nat.cast_add, add_mul, scaled m e (by omega), scaled n f (by omega)]
      have hpos : m <<< (e - min e f).toNat + n <<< (f - min e f).toNat ≠ 0 := by
        rw [Nat.shiftLeft_eq]
        exact (Nat.add_pos_left (Nat.mul_pos hm (Nat.two_pow_pos _)) _).ne'
      rw [← hv] at h ⊢
      rw [hxy, hsum]
      exact denotes_normalize hpos hN hN' h

theorem Denotes.mul_one (hx : Denotes x a) (h : a ≤ 2 ^ (1022 : Int)) :
    Denotes (x * Float.ofBits 0x3FF0000000000000) a := by
  have hone : (Float.ofBits 0x3FF0000000000000).toModel.unpack = .finite .positive (2 ^ 52) (-52) (by decide) := rfl
  have hmul : x * Float.ofBits 0x3FF0000000000000 = .ofModel (Float.Model.pack (UnpackedFloat.mul Format.binary64
    x.toModel.unpack (Float.ofBits 0x3FF0000000000000).toModel.unpack)) := rfl
  rw [hmul, hone]
  cases hx with
  | zero hx =>
    rw [hx]
    exact .zero rfl
  | @finite m e hm hc hx =>
    have hsame : unit (m * 2 ^ 52) (e - (52 : Nat)) = e := (unit_scale hm.ne' e 52).trans (hc.unit_eq hm)
    have htop := unit_le hm.ne' (by decide) h
    rw [hc.unit_eq hm] at htop
    have hfit : e - (52 : Nat) ≤ unit (m * 2 ^ 52) (e - (52 : Nat)) := by omega
    obtain ⟨r, -, -, hexact, hr⟩ := denotes_round (Nat.mul_pos hm (Nat.two_pow_pos 52)).ne' hfit (by omega) .exact
    rw [hsame, show (e - (e - (52 : Nat))).toNat = 52 by omega, Nat.mul_div_cancel _ (Nat.two_pow_pos 52)] at hexact
    rw [hsame, hexact rfl (Nat.dvd_mul_left _ _)] at hr
    rw [hx]
    exact hr

/-- **A whole number below `2 ^ 53` is a double.** -/
theorem denotes_ofNat {n : Nat} (hn : n < 2 ^ 53) : Denotes (Float.ofNat n) n := by
  have hofNat : Float.ofNat n = n.toUInt64.toFloat * Float.ofBits 0x3FF0000000000000 := by
    change Float.ofScientific n false 0 = _
    unfold Float.ofScientific
    rw [dif_pos ⟨hn, by decide⟩]
    rfl
  have hint : n.toUInt64.toFloat =
      .ofModel (Float.Model.pack (UnpackedFloat.normalize Format.binary64 (n : Int) 0 .positive)) := by
    have hword : n.toUInt64.toNat = n := UInt64.toNat_ofNat_of_lt' (Nat.lt_trans hn (by decide))
    change Float.ofModel (Float.Model.pack (UnpackedFloat.normalize Format.binary64 (n.toUInt64.toNat : Int) 0
      .positive)) = _
    rw [hword]
  have hbound : (n : ℚ) ≤ 2 ^ (1022 : Int) := by
    have hle : n ≤ 2 ^ 53 := hn.le
    calc (n : ℚ) ≤ (2 : ℚ) ^ (53 : Int) := by exact_mod_cast hle
      _ ≤ 2 ^ (1022 : Int) := zpow_le_zpow_right₀ (by norm_num) (by norm_num)
  rw [hofNat, hint]
  refine Denotes.mul_one ?_ hbound
  by_cases h : n = 0
  · subst h
    exact .zero rfl
  · have hlog := (Nat.log2_lt h).2 hn
    have hunit : unit n 0 ≤ 0 := by
      unfold unit
      omega
    have hexact := denotes_normalize_exact h hunit (hunit.trans (by decide))
    rw [zpow_zero, mul_one] at hexact
    exact hexact

theorem floor_near (p : Nat) {n : Nat} (hn : 0 < n) :
    ((p / n : Nat) : ℚ) ≤ p / n ∧ (p : ℚ) / n ≤ (p / n : Nat) + 1 := by
  have hn' : (0 : ℚ) < n := by exact_mod_cast hn
  rw [le_div_iff₀ hn', div_le_iff₀ hn']
  have hdiv := Nat.div_add_mod p n
  have hmod := Nat.mod_lt p hn
  have hlow : p / n * n ≤ p := Nat.div_mul_le_self p n
  have hhigh : p ≤ (p / n + 1) * n := by
    rw [Nat.add_mul, Nat.one_mul, Nat.mul_comm (p / n)]
    omega
  exact ⟨by exact_mod_cast hlow, by exact_mod_cast hhigh⟩

/-- How far apart the highest bits of two numbers are, if their quotient is not small. -/
theorem lt_spread {m n : Nat} {e f L : Int} (hn : 0 < n) (h : (2 : ℚ) ^ L ≤ (m * 2 ^ e) / (n * 2 ^ f)) :
    L < m.log2 + 1 + e - n.log2 - f := by
  have hden : (0 : ℚ) < n * 2 ^ f := by positivity
  have hm : (m : ℚ) < 2 ^ ((m.log2 + 1 : Nat) : Int) := by
    rw [zpow_natCast]
    exact_mod_cast Nat.lt_log2_self
  have hn' : (2 : ℚ) ^ (n.log2 : Int) ≤ n := by
    rw [zpow_natCast]
    exact_mod_cast Nat.log2_self_le hn.ne'
  rw [le_div_iff₀ hden] at h
  have hpow : (2 : ℚ) ^ (L + (n.log2 + f)) < 2 ^ (((m.log2 + 1 : Nat) : Int) + e) := by
    rw [zpow_add₀ (by norm_num), zpow_add₀ (by norm_num), zpow_add₀ (by norm_num)]
    calc (2 : ℚ) ^ L * (2 ^ (n.log2 : Int) * 2 ^ f) ≤ 2 ^ L * (n * 2 ^ f) :=
          mul_le_mul_of_nonneg_left (mul_le_mul_of_nonneg_right hn' (by positivity)) (by positivity)
      _ ≤ m * 2 ^ e := h
      _ < 2 ^ ((m.log2 + 1 : Nat) : Int) * 2 ^ e := mul_lt_mul_of_pos_right hm (by positivity)
  have hlt := (zpow_lt_zpow_iff_right₀ (by norm_num)).1 hpow
  push_cast at hlt
  omega

theorem full_quotient {m n s : Nat} (hm : m ≠ 0) (hn : 0 < n) (h : n.log2 + 53 ≤ m.log2 + s) :
    2 ^ 52 ≤ m * 2 ^ s / n := by
  rw [Nat.le_div_iff_mul_le hn]
  calc 2 ^ 52 * n ≤ 2 ^ 52 * 2 ^ (n.log2 + 1) := Nat.mul_le_mul_left _ Nat.lt_log2_self.le
    _ = 2 ^ (52 + (n.log2 + 1)) := (Nat.pow_add _ _ _).symm
    _ ≤ 2 ^ (m.log2 + s) := Nat.pow_le_pow_right (by decide) (by omega)
    _ = 2 ^ m.log2 * 2 ^ s := Nat.pow_add _ _ _
    _ ≤ m * 2 ^ s := Nat.mul_le_mul_right _ (Nat.log2_self_le hm)

/-- **The quotient of two doubles.** -/
theorem Denotes.div (hx : Denotes x a) (hy : Denotes y b) (hb : 0 < b) {N : Int} (hN : -1022 ≤ N) (hN' : N ≤ 1022)
    (hlow : 2 ^ (-1020 : Int) ≤ a / b) (h : a / b ≤ 2 ^ N) :
    ∃ c, Denotes (x / y) c ∧ |c - a / b| ≤ 2 ^ (N - 51) := by
  cases hy with
  | zero hy => exact absurd hb (lt_irrefl 0)
  | @finite n f hn hd hy =>
  cases hx with
  | zero hx =>
    rw [zero_div] at hlow
    exact absurd hlow (not_le.2 (by positivity))
  | @finite m e hm hc hx =>
    have hspread := lt_spread hn hlow
    have htarget : Format.binary64.targetExponent (totalExponent m e - totalExponent n f) =
        m.log2 + e - n.log2 - f - 53 := by
      change max ((m.log2 : Int) + 1 + e - (n.log2 + 1 + f) - (1 + 52 : Nat)) (3 - 2 ^ (11 - 1) - (1 + 52 : Nat)) = _
      omega
    obtain ⟨t, ht⟩ : ∃ t, t = min (e - f) (m.log2 + e - n.log2 - f - 53) := ⟨_, rfl⟩
    obtain ⟨s, hs⟩ : ∃ s : Nat, s = (e - f - t).toNat := ⟨_, rfl⟩
    have hdiv : x / y = .ofModel (Float.Model.pack (roundWithAccuracy Format.binary64 .positive (m * 2 ^ s / n) t
        (accuracyOfFraction (m * 2 ^ s % n) n))) := by
      have hxy : x / y = .ofModel (Float.Model.pack
        (UnpackedFloat.div Format.binary64 x.toModel.unpack y.toModel.unpack)) := rfl
      rw [hxy, hx, hy, ← Nat.shiftLeft_eq, hs, ht, ← htarget]
      rfl
    have hfull : 2 ^ 52 ≤ m * 2 ^ s / n := full_quotient hm.ne' hn (by omega)
    have hq : m * 2 ^ s / n ≠ 0 := (Nat.lt_of_lt_of_le (Nat.two_pow_pos 52) hfull).ne'
    have hlog := (Nat.le_log2 hq).2 hfull
    have hfit : t ≤ unit (m * 2 ^ s / n) t := by
      unfold unit
      omega
    have hn' : (0 : ℚ) < n := by exact_mod_cast hn
    have hv : ((m : ℚ) * 2 ^ e) / (n * 2 ^ f) = (m * 2 ^ s : Nat) / n * 2 ^ t := by
      have hts : e = t + s + f := by omega
      rw [hts, zpow_add₀ (by norm_num), zpow_add₀ (by norm_num), zpow_natCast]
      push_cast
      field_simp
    obtain ⟨hle, hlt⟩ := floor_near (m * 2 ^ s) hn
    have hpos : (0 : ℚ) < 2 ^ t := by positivity
    rw [hv] at h ⊢
    have hunit := unit_le hq hN ((mul_le_mul_of_nonneg_right hle hpos.le).trans h)
    obtain ⟨c, hc', herr⟩ := denotes_round_near hq hfit (by omega) (accuracyOfFraction (m * 2 ^ s % n) n)
    refine ⟨c, hdiv ▸ hc', ?_⟩
    have hstep : (2 : ℚ) ^ unit (m * 2 ^ s / n) t ≤ 2 ^ (N - 52) := zpow_le_zpow_right₀ (by norm_num) hunit
    have hstep' : (2 : ℚ) ^ t ≤ 2 ^ (N - 52) := zpow_le_zpow_right₀ (by norm_num) (hfit.trans hunit)
    have htwice : (2 : ℚ) ^ (N - 51) = 2 ^ (N - 52) + 2 ^ (N - 52) := by
      rw [show N - 51 = N - 52 + 1 by omega, zpow_add₀ (by norm_num)]
      ring
    have hcut : |((m * 2 ^ s / n : Nat) : ℚ) * 2 ^ t - (m * 2 ^ s : Nat) / n * 2 ^ t| ≤ 2 ^ t := by
      rw [← sub_mul, abs_mul, abs_of_pos hpos]
      exact mul_le_of_le_one_left hpos.le (abs_le.2 ⟨by linarith, by linarith⟩)
    -- the quotient is cut to a whole number, and that is rounded
    rw [htwice]
    exact (abs_sub_le _ _ _).trans (add_le_add (herr.trans hstep) (hcut.trans hstep'))

theorem Canonical.lt_of_exp {m n : Nat} {e f : Int} (hm : Canonical m e) (hn : Canonical n f) (h : e < f) :
    (m : ℚ) * 2 ^ e < n * 2 ^ f := by
  have hfull : 2 ^ 52 ≤ n := hn.full.resolve_right (by have := hm.least; omega)
  have hm' : (m : ℚ) < 2 ^ 53 := by exact_mod_cast hm.bits
  have hn' : (2 : ℚ) ^ 52 ≤ n := by exact_mod_cast hfull
  calc (m : ℚ) * 2 ^ e < 2 ^ 53 * 2 ^ e := mul_lt_mul_of_pos_right hm' (by positivity)
    _ = 2 ^ 52 * 2 ^ (e + 1) := by rw [zpow_add₀ (by norm_num)]; ring
    _ ≤ 2 ^ 52 * 2 ^ f := mul_le_mul_of_nonneg_left (zpow_le_zpow_right₀ (by norm_num) h) (by positivity)
    _ ≤ n * 2 ^ f := mul_le_mul_of_nonneg_right hn' (by positivity)

theorem lt_iff_compare (x y : Float) : x < y ↔ x.toModel.unpack.compare y.toModel.unpack = some .lt := by
  change decide (x.toModel < y.toModel) = true ↔ _
  rw [decide_eq_true_iff]
  change (x.toModel.unpack.compare y.toModel.unpack == some .lt) = true ↔ _
  exact beq_iff_eq

theorem le_iff_compare (x y : Float) : x ≤ y ↔ (x.toModel.unpack.compare y.toModel.unpack).any (·.isLE) = true := by
  change decide (x.toModel ≤ y.toModel) = true ↔ _
  rw [decide_eq_true_iff]
  exact Iff.rfl

theorem compare_swap (x y : UnpackedFloat) : y.compare x = (x.compare y).map Ordering.swap := by
  have ordered (m n : Nat) (e f : Int) :
      (compare f e).then (compare n m) = ((compare e f).then (compare m n)).swap := by
    rw [Ordering.swap_then, ← Std.OrientedCmp.eq_swap, ← Std.OrientedCmp.eq_swap]
  rcases x with (_ | _) | _ | (_ | _) | ⟨_ | _, m, e, -⟩ <;>
    rcases y with (_ | _) | _ | (_ | _) | ⟨_ | _, n, f, -⟩ <;>
    first
    | rfl
    | exact congrArg some (ordered _ _ _ _)
    | exact congrArg (fun o => some o.swap) (ordered _ _ _ _)

theorem not_number_of_compare {x y : UnpackedFloat} (h : x.compare y = none) :
    x = .notANumber ∨ y = .notANumber := by
  revert h
  fun_cases UnpackedFloat.compare x y <;> simp

/-- **Of two numbers one is not greater than the other.** -/
theorem le_iff_not_lt {x y : Float} (hx : (x == x) = true) (hy : (y == y) = true) : x ≤ y ↔ ¬ y < x := by
  have number {z : Float} (hz : (z == z) = true) : z.toModel.unpack ≠ .notANumber :=
    ((beq_iff_ne_notANumber_and_eq _ _).1 hz).1
  rw [le_iff_compare, lt_iff_compare, compare_swap x.toModel.unpack]
  cases hc : x.toModel.unpack.compare y.toModel.unpack with
  | none =>
    rcases not_number_of_compare hc with h | h
    · exact absurd h (number hx)
    · exact absurd h (number hy)
  | some o => cases o <;> decide

theorem beq_iff_compare (x y : Float) : (x == y) = true ↔ x.toModel.unpack.compare y.toModel.unpack = some .eq := by
  change (x.toModel.unpack.compare y.toModel.unpack == some .eq) = true ↔ _
  exact beq_iff_eq

theorem le_refl {x : Float} (hx : (x == x) = true) : x ≤ x := by
  rw [le_iff_compare, (beq_iff_compare x x).1 hx]
  rfl

theorem beq_of_le {x y : Float} (h : x ≤ y) (h' : y ≤ x) : (x == y) = true := by
  rw [le_iff_compare] at h h'
  rw [compare_swap x.toModel.unpack] at h'
  rw [beq_iff_compare]
  cases hc : x.toModel.unpack.compare y.toModel.unpack with
  | none =>
    rw [hc] at h
    cases h
  | some o =>
    rw [hc] at h h'
    cases o with
    | eq => rfl
    | lt => cases h'
    | gt => cases h

/-- **Doubles compare as their numbers do.** -/
theorem Denotes.lt_iff (hx : Denotes x a) (hy : Denotes y b) : x < y ↔ a < b := by
  rw [lt_iff_compare]
  cases hx with
  | zero hx =>
    cases hy with
    | zero hy =>
      rw [hx, hy]
      simp [UnpackedFloat.compare]
    | @finite n f hn hd hy =>
      rw [hx, hy]
      have : (0 : ℚ) < n * 2 ^ f := by positivity
      simp [UnpackedFloat.compare, this]
  | @finite m e hm hc hx =>
    cases hy with
    | zero hy =>
      rw [hx, hy]
      have : (0 : ℚ) ≤ m * 2 ^ e := by positivity
      simp [UnpackedFloat.compare, this.not_gt]
    | @finite n f hn hd hy =>
      rw [hx, hy]
      change some ((compare e f).then (compare m n)) = some Ordering.lt ↔ _
      rw [Option.some.injEq]
      rcases Int.lt_trichotomy e f with hlt | rfl | hgt
      · rw [Int.compare_eq_lt.2 hlt]
        exact iff_of_true rfl (hc.lt_of_exp hd hlt)
      · rw [Int.compare_eq_eq.2 rfl]
        change compare m n = .lt ↔ _
        rw [Nat.compare_eq_lt, mul_lt_mul_iff_left₀ (by positivity), Nat.cast_lt]
      · rw [Int.compare_eq_gt.2 hgt]
        exact iff_of_false nofun (hd.lt_of_exp hc hgt).le.not_gt

/-! ## Whole parts -/

theorem roundToInt_positive (m : Nat) (e : Int) : roundToInt .positive m e = ⌊(m : ℚ) * 2 ^ e⌋₊ := by
  have hm : roundToInt .positive m e =
      ((ExtendedMantissa.ofMantissaAndAccuracy (m <<< (e - 0).toNat) .exact >>>
        (0 - (e - ((e - 0).toNat : Int))).toNat).mantissa : Int) := rfl
  rw [hm, mantissa_shift, Nat.shiftLeft_eq]
  change ((m * 2 ^ _ / 2 ^ _ : Nat) : Int) = _
  congr 1
  rcases Int.le_total 0 e with h | h
  · obtain ⟨k, rfl⟩ := Int.eq_ofNat_of_zero_le h
    have hup : ((k : Int) - 0).toNat = k := by omega
    have hdown : (0 - ((k : Int) - (k : Int))).toNat = 0 := by omega
    rw [hup, hdown, Nat.pow_zero, Nat.div_one, zpow_natCast]
    exact_mod_cast (Nat.floor_natCast (R := ℚ) (m * 2 ^ k)).symm
  · obtain ⟨k, hk⟩ := Int.eq_ofNat_of_zero_le (Int.neg_nonneg_of_nonpos h)
    obtain rfl : e = -k := by omega
    have hup : (-(k : Int) - 0).toNat = 0 := by omega
    have hdown : (0 - (-(k : Int) - ((0 : Nat) : Int))).toNat = k := by omega
    rw [hup, hdown, Nat.pow_zero, Nat.mul_one, zpow_neg, zpow_natCast, ← div_eq_mul_inv]
    exact_mod_cast (Nat.floor_div_eq_div (K := ℚ) m (2 ^ k)).symm

theorem Denotes.toNat_toUInt64 (hx : Denotes x a) (h : a < 2 ^ 64) : x.toUInt64.toNat = ⌊a⌋₊ := by
  change (UInt64.ofNatClamp (toInt 0 (↑UInt64.size - 1) x.toModel.unpack).toNat).toNat = _
  cases hx with
  | zero hx =>
    rw [hx, Nat.floor_zero]
    rfl
  | @finite m e hm hc hx =>
    rw [hx]
    change (UInt64.ofNatClamp (roundToInt .positive m e).toNat).toNat = _
    rw [roundToInt_positive, Int.toNat_natCast, UInt64.toNat_ofNatClamp_of_lt]
    exact (Nat.floor_lt (by positivity)).2 (by exact_mod_cast h)

/-- **A double is cut to the whole number below it.** -/
theorem Denotes.toInt64 (hx : Denotes x a) (h : a < 2 ^ 63) : (Number.toInt64 x).toInt = ⌊a⌋₊ := by
  have zero : Denotes (0 : Float) 0 := .zero rfl
  have hsign : ¬ x < 0 := by
    rw [hx.lt_iff zero]
    exact hx.nonneg.not_gt
  have hlt : ⌊a⌋₊ < 2 ^ 63 := (Nat.floor_lt hx.nonneg).2 (by exact_mod_cast h)
  have hcut : x.toUInt64.toNat = ⌊a⌋₊ := hx.toNat_toUInt64 (h.trans (by norm_num))
  rw [Number.toInt64, if_neg hsign, hcut, Nat.min_eq_left (by change _ ≤ 2 ^ 63 - 1; omega)]
  exact Int64.toInt_ofInt_of_le (by omega) (by omega)

theorem eq_of_beq (h : (x == y) = true) :
    x = y ∨ ∃ σ τ, x.toModel.unpack = .zero σ ∧ y.toModel.unpack = .zero τ := by
  obtain ⟨-, -, heq | ⟨hx, hy⟩ | ⟨hx, hy⟩⟩ := (beq_iff_ne_notANumber_and_eq _ _).1 h
  · left
    have hbits := (unpack_inj_of_valid x.toModel.valid y.toModel.valid).1 heq
    rcases x with ⟨⟨⟨bits⟩, _⟩⟩
    rcases y with ⟨⟨⟨bits'⟩, _⟩⟩
    obtain rfl : bits = bits' := hbits
    rfl
  · exact .inr ⟨_, _, hx, hy⟩
  · exact .inr ⟨_, _, hx, hy⟩

end Double
end Playhead
