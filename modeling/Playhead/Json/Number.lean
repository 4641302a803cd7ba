import Playhead.Json.Value
/-!
# Number — numerals as integers and as doubles

A natural number is written as plain digits.  A double is read in two steps: the digits fill a 64-bit word as far as it
goes, and the word, as a double, is multiplied or divided once by a power of ten.  That is the nearest double for
numerals of up to fifteen digits, and at most a few units of the last place away from it for longer ones.
-/
namespace Playhead
namespace Json

def maxWord : Nat := Nat.pow 2 64 - 1

/-- Digits before the point.  From the first digit that does not fit the word on, digits are only counted. -/
def fillWhole : (word : Nat) → List Nat → Nat × Nat
  | word, [] => (word, 0)
  | word, d :: ds => if word * 10 + d ≤ maxWord then fillWhole (word * 10 + d) ds else (word, ds.length + 1)

/-- Digits behind the point.  The first digit that does not fit ends the reading; the digits that fit are counted. -/
def fillFraction : (word : Nat) → List Nat → Nat × Nat
  | word, [] => (word, 0)
  | word, d :: ds =>
    if word * 10 + d ≤ maxWord then
      let (w, used) := fillFraction (word * 10 + d) ds
      (w, used + 1)
    else (word, 0)

def ofDigits (ds : List Nat) : Nat := ds.foldl (fun n d => n * 10 + d) 0

/-- The double nearest to a power of ten, for exponents up to 308. -/
def powerOfTen (e : Nat) : Float := Float.ofScientific 1 false e

/-- `f · 10 ^ e`.  A result beyond the largest double is refused; one below the smallest is zero. -/
def scale (f : Float) (e : Int) : Option Float :=
  if 0 ≤ e then
    if e ≤ 308 then
      let g := f * powerOfTen e.toNat
      if g.isInf then none else some g
    else if f == 0 then some f else none
  else if -308 ≤ e then some (f / powerOfTen (-e).toNat)
  else if f == 0 then some f
  else scale (f / 1e308) (e + 308)
termination_by (-e).toNat
decreasing_by omega

namespace Numeral

def toNat? (n : Numeral) : Option Nat :=
  if n.negative || n.fraction.isSome || n.exponent.isSome then none else some (ofDigits n.whole)

def writtenExponent (n : Numeral) : Int :=
  match n.exponent with
  | none => 0
  | some (negative, ds) => if negative then -(ofDigits ds : Int) else (ofDigits ds : Int)

def toFloat? (n : Numeral) : Option Float :=
  let (word, counted) := fillWhole 0 n.whole
  let (word, used) := fillFraction word (n.fraction.getD [])
  (scale word.toFloat ((counted : Int) - used + n.writtenExponent)).map (fun f => if n.negative then -f else f)

end Numeral
end Json
end Playhead
