import MarketFeed.Decimal.Basic
import MarketFeed.Binary64.Basic

/-!
# MarketFeed.Decimal.Double

A decimal as a double: the whole part and the fraction are converted on their own and added, and
the sum is rounded to the decimal's places once more.
-/

namespace MarketFeed
namespace Decimal

/-- The double of a magnitude with `scale` places. -/
def magnitudeFloat (magnitude scale : Nat) : Float :=
  let unit := Nat.pow 10 scale
  let whole := Binary64.nearest (magnitude / unit)
  let fraction := Binary64.nearest (magnitude % unit) / Binary64.nearest unit
  if scale = 0 || fraction == 0 then whole
  else (((whole + fraction) * Binary64.nearest unit).round) / Binary64.nearest unit

def toFloat (d : Decimal) : Float :=
  let f := magnitudeFloat d.units.natAbs d.scale
  if d.units < 0 then -f else f

def toBinary64 (d : Decimal) : Binary64 := .ofFloat d.toFloat

end Decimal
end MarketFeed
