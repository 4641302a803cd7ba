/-!
# Value — JSON values as they are written

A value keeps what its text says and no more: numbers as their digits, objects as their members in order with
repetitions.  A string whose escapes spell no text (half of a surrogate pair without the other) is kept as `none`: it
is well formed, but it can not be read.
-/
namespace Playhead
namespace Json

/-- A number as it is written, digit by digit. -/
structure Numeral where
  negative : Bool := false
  whole : List Nat
  fraction : Option (List Nat) := none
  /-- The sign of the exponent, true if negative, and its digits. -/
  exponent : Option (Bool × List Nat) := none
deriving DecidableEq, Repr, Inhabited

abbrev Text := Option String

inductive Value
  | null
  | bool (b : Bool)
  | number (n : Numeral)
  | string (s : Text)
  | array (items : List Value)
  | object (members : List (Text × Value))
deriving Repr, Inhabited

end Json
end Playhead
