/-!
# MarketFeed.Binary64.Basic

IEEE 754 double-precision numbers by their 64 bits, so that signed zeros and NaN payloads are
values of their own.

* `Binary64` — the bits.
* `ofFloat`, `toFloat` — to and from the machine's arithmetic.
* `significand`, `exponent` — a finite number is `±significand · 2 ^ exponent`.
* `nearest`, `nearestInt` — the double nearest to a whole number, ties to even.
-/

namespace MarketFeed

structure Binary64 where
  bits : UInt64
  deriving DecidableEq, Repr, Inhabited

namespace Binary64

def ofFloat (x : Float) : Binary64 := ⟨x.toBits⟩

def toFloat (x : Binary64) : Float := Float.ofBits x.bits

def isNegative (x : Binary64) : Bool := 9223372036854775808 ≤ x.bits.toNat

def exponentField (x : Binary64) : Nat := x.bits.toNat / 4503599627370496 % 2048

def fractionField (x : Binary64) : Nat := x.bits.toNat % 4503599627370496

def significand (x : Binary64) : Nat :=
  if x.exponentField = 0 then x.fractionField else 4503599627370496 + x.fractionField

def exponent (x : Binary64) : Int :=
  (if x.exponentField = 0 then 1 else (x.exponentField : Int)) - 1075

/-- A number of at most 64 bits is rounded by the machine. Of a larger one the highest 64 bits are,
the lowest of them set if any bit is left out, which keeps a tie from being seen where none is. -/
def nearest (n : Nat) : Float :=
  let shift := n.log2 - 63
  let unit := Nat.pow 2 shift
  let top := n / unit
  let top := if top * unit = n ∨ top % 2 = 1 then top else top + 1
  top.toUInt64.toFloat.scaleB shift

def nearestInt (i : Int) : Float := if i < 0 then -(nearest i.natAbs) else nearest i.natAbs

def isZero (x : Binary64) : Bool := x.significand = 0

end Binary64
end MarketFeed
