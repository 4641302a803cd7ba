/-!
# Decimal — the decimal text of a double

A finite double is `mant · 2 ^ exp`.  Two texts are written of it, both from the exact value: the fewest digits that
read back as the same double (`shortest`), and a fixed number of places (`fixed`).  Neither ever uses an exponent.
-/
namespace Playhead
namespace Number

inductive Parts
  | nan
  | infinite (negative : Bool)
  | finite (negative : Bool) (mant : Nat) (exp : Int)
deriving DecidableEq, Repr

def Parts.of (x : Float) : Parts :=
  let bits := x.toBits.toNat
  let negative := decide (Nat.pow 2 63 ≤ bits)
  let e : Nat := bits / Nat.pow 2 52 % Nat.pow 2 11
  let f : Nat := bits % Nat.pow 2 52
  if e = 2047 then (if f = 0 then .infinite negative else .nan)
  else if e = 0 then .finite negative f (-1074)
  else .finite negative (f + Nat.pow 2 52) ((e : Int) - 1075)

/-- `decimalSide n p q ≤ binarySide x p q` compares `n · 10 ^ p` with `x · 2 ^ q` in whole numbers. -/
def decimalSide (n : Nat) (p q : Int) : Nat := n * Nat.pow 10 p.toNat * Nat.pow 2 (-q).toNat

def binarySide (x : Nat) (p q : Int) : Nat := x * Nat.pow 2 q.toNat * Nat.pow 10 (-p).toNat

/-- The reals that round to `mant · 2 ^ exp`, as a closed or open interval in quarters of the last bit.  Below a power
of two the gap is half as wide. -/
structure Interval where
  low : Nat
  high : Nat
  closed : Bool

def Interval.around (mant : Nat) (exp : Int) : Interval where
  low := if mant = Nat.pow 2 52 ∧ -1074 < exp then 4 * mant - 1 else 4 * mant - 2
  high := 4 * mant + 2
  closed := mant % 2 = 0

def Interval.contains (i : Interval) (n : Nat) (p q : Int) : Bool :=
  let d := decimalSide n p q
  let lo := binarySide i.low p q
  let hi := binarySide i.high p q
  if i.closed then decide (lo ≤ d) && decide (d ≤ hi) else decide (lo < d) && decide (d < hi)

/-- The multiple of `10 ^ p` that stands for the double: of its two neighbours the one that reads back, of two such the
nearer, a tie going up. -/
def candidate (mant : Nat) (exp p : Int) : Option Nat :=
  let q := exp - 2
  let i := Interval.around mant exp
  let value := binarySide (4 * mant) p q
  let n := value / decimalSide 1 p q
  match decide (0 < n) && i.contains n p q, i.contains (n + 1) p q with
  | true, true => if 2 * value < decimalSide (2 * n + 1) p q then some n else some (n + 1)
  | true, false => some n
  | false, true => some (n + 1)
  | false, false => none

/-- Looks for the coarsest decimal grid with a candidate, from `10 ^ p` down. -/
def searchGrid (mant : Nat) (exp : Int) : (steps : Nat) → (p : Int) → Nat × Int
  | 0, p => (0, p)
  | steps + 1, p =>
    match candidate mant exp p with
    | some n => (n, p)
    | none => searchGrid mant exp steps (p - 1)

/-- A power of ten that the value does not reach; `30103 / 100000` is just above the logarithm of two. -/
def topGrid (mant : Nat) (exp : Int) : Int := ((mant.log2 : Int) + 1 + exp) * 30103 / 100000 + 1

/-- The shortest digits of a positive finite double, as a number and the power of ten it counts.  Seventeen digits
always do, and the search starts at most a few grids too high. -/
def shortestDigits (mant : Nat) (exp : Int) : Nat × Int := searchGrid mant exp 24 (topGrid mant exp)

def digits (n : Nat) : List Char := Nat.toDigits 10 n

def padded (width n : Nat) : List Char :=
  let ds := digits n
  List.replicate (width - ds.length) '0' ++ ds

def positional (n : Nat) (p : Int) : List Char :=
  if 0 ≤ p then digits (n * Nat.pow 10 p.toNat)
  else
    let places := (-p).toNat
    digits (n / Nat.pow 10 places) ++ '.' :: padded places (n % Nat.pow 10 places)

def signed (negative : Bool) (text : List Char) : String :=
  String.ofList (if negative then '-' :: text else text)

/-- The fewest digits that read back as the double.  A whole number has no point. -/
def shortest (x : Float) : String :=
  match Parts.of x with
  | .nan => "NaN"
  | .infinite negative => signed negative "inf".toList
  | .finite negative 0 _ => signed negative ['0']
  | .finite negative mant exp =>
    let (n, p) := shortestDigits mant exp
    signed negative (positional n p)

def nearestEven (n d : Nat) : Nat :=
  if d < 2 * (n % d) ∨ (2 * (n % d) = d ∧ n / d % 2 = 1) then n / d + 1 else n / d

/-- The exact value rounded to a number of places, at least one; the sign of zero is written. -/
def fixed (places : Nat) (x : Float) : String :=
  match Parts.of x with
  | .nan => "NaN"
  | .infinite negative => signed negative "inf".toList
  | .finite negative mant exp =>
    let n := nearestEven (mant * Nat.pow 2 exp.toNat * Nat.pow 10 places) (Nat.pow 2 (-exp).toNat)
    signed negative (positional n (-(places : Int)))

end Number
end Playhead
