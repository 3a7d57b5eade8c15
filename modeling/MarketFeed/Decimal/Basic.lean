import MarketFeed.Text.Digits

/-!
# MarketFeed.Decimal.Basic

Decimal numbers of at most 96 bits with 0 to 28 places, which keep their trailing zeros.

* `Decimal` — `units / 10 ^ scale`.
* `Decimal.ofParts?` — the decimal of a sign, a magnitude and a scale that are in range.
* `Decimal.text` — positional notation with exactly `scale` places; zero has no sign.
-/

namespace MarketFeed

/-- The number `units / 10 ^ scale`. -/
structure Decimal where
  units : Int
  scale : Nat
  units_lt : units.natAbs < 79228162514264337593543950336
  scale_le : scale ≤ 28
  deriving DecidableEq, Repr

namespace Decimal

def zero : Decimal := ⟨0, 0, by decide, by decide⟩

instance : Inhabited Decimal := ⟨zero⟩

/-- The first magnitude of more than 96 bits. -/
def mantissaBound : Nat := 79228162514264337593543950336

def maxScale : Nat := 28

def ofUnits? (units : Int) (scale : Nat) : Option Decimal :=
  if h : units.natAbs < mantissaBound ∧ scale ≤ maxScale then some ⟨units, scale, h.1, h.2⟩ else none

def ofParts? (negative : Bool) (magnitude scale : Nat) : Option Decimal :=
  ofUnits? (if negative then -(magnitude : Int) else magnitude) scale

/-- A whole number. -/
def ofInt? (i : Int) : Option Decimal := ofUnits? i 0

/-- The digits of a magnitude with `scale` of them after the point and at least one before it. -/
def placed (magnitude scale : Nat) : List Char :=
  let ds := Text.paddedDigits (scale + 1) magnitude
  if scale = 0 then ds
  else ds.take (ds.length - scale) ++ '.' :: ds.drop (ds.length - scale)

def chars (d : Decimal) : List Char :=
  let cs := placed d.units.natAbs d.scale
  if d.units < 0 then '-' :: cs else cs

def text (d : Decimal) : String := String.ofList d.chars

end Decimal
end MarketFeed
