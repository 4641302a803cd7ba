/-!
# Rounding — integers from quotients and from doubles

`nearest n d` is the integer nearest to `n / d`, a tie going away from zero.  The functions on `Float` take a double to
an integer range: toward zero or to the nearest integer, a value outside the range to the end it passed, a NaN to zero.
-/
namespace Playhead
namespace Number

/-- The integer nearest to `n / d` for `0 < d`; a tie goes away from zero. -/
def nearest (n d : Int) : Int :=
  if 0 ≤ n then (n + d / 2) / d else -((d / 2 - n) / d)

def low64 (n : Int) : Int64 := Int64.ofInt n

theorem nearest_zero (d : Int) (hd : 0 < d) : nearest 0 d = 0 := by
  have h : d / 2 / d = 0 := Int.ediv_eq_zero_of_lt (by omega) (by omega)
  simp [nearest, h]

/-- Rounding is odd: a tie goes away from zero on either side. -/
theorem nearest_neg (n d : Int) (hd : 0 < d) : nearest (-n) d = -nearest n d := by
  rcases Int.lt_trichotomy n 0 with h | h | h
  · rw [nearest, nearest, if_pos (by omega), if_neg (by omega), Int.neg_neg]
    congr 1
    omega
  · subst h
    rw [Int.neg_zero, nearest_zero d hd, Int.neg_zero]
  · rw [nearest, nearest, if_neg (by omega), if_pos (by omega)]
    congr 2
    omega

def toInt64 (x : Float) : Int64 :=
  if x < 0 then Int64.ofInt (-(min (-x).toUInt64.toNat (Nat.pow 2 63) : Nat))
  else Int64.ofInt (min x.toUInt64.toNat (Nat.pow 2 63 - 1) : Nat)

/-- To the nearest integer, a tie going up, into the unsigned 64-bit range.  From `2 ^ 53` on every double is an
integer, and there the difference to the truncated value is not looked at. -/
def toNearestNat (x : Float) : Nat :=
  let n := x.toUInt64.toNat
  if x < 9007199254740992 ∧ 0.5 ≤ x - n.toFloat then n + 1 else n

end Number
end Playhead
