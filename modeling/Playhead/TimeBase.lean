import Playhead.Number.Rounding
/-!
# TimeBase — fractions of a second that time stamps count in

A stream counts its stamps in units of `num / den` seconds.  `TimeBase.rescale` carries a stamp from one base to
another, to the nearest tick; `TimeBase.seconds` is the stamp as a double.
-/
namespace Playhead

/-- Stamps are signed 64-bit tick counts. -/
abbrev Ticks := Int64

structure TimeBase where
  num : Int32 := 0
  den : Int32 := 0
deriving DecidableEq, Repr, Inhabited

namespace TimeBase

/-- One microsecond, the unit in which a container is asked to seek. -/
def micros : TimeBase := ⟨1, 1000000⟩

def isValid (b : TimeBase) : Bool := decide (0 < b.num.toInt) && decide (0 < b.den.toInt)

def toFloat (b : TimeBase) : Float :=
  if b.den = 0 then 0 else Float.ofInt b.num.toInt / Float.ofInt b.den.toInt

/-- The tick of `b` nearest to `t` ticks of `src`, before it is cut to a word. -/
def exactRescale (b : TimeBase) (t : Int) (src : TimeBase) : Int :=
  Number.nearest (t * src.num.toInt * b.den.toInt) (src.den.toInt * b.num.toInt)

/-- `t` ticks of `src` in ticks of `b`; between bases of which one is invalid a stamp is left as it is. -/
def rescale (b : TimeBase) (t : Ticks) (src : TimeBase) : Ticks :=
  if b.isValid && src.isValid then Number.low64 (b.exactRescale t.toInt src) else t

def seconds (b : TimeBase) (t : Ticks) : Float := Float.ofInt t.toInt * b.toFloat

end TimeBase
end Playhead
