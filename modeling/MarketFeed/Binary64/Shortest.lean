import MarketFeed.Binary64.Basic
import MarketFeed.Text.Digits

/-!
# MarketFeed.Binary64.Shortest

The shortest decimal that reads back as a given double, in exact integer arithmetic.

* `Rounding` — the reals that round to `m · 2 ^ q`, as integers over one denominator.
* `shortest` — of the decimals with the fewest digits among them, the nearest to the double.
* `plainText`, `scientificText` — the decimal written out, positionally at every size, or with an
  exponent where it is very small or very large.
-/

namespace MarketFeed
namespace Binary64

/-- The double `value / unit` and the ends `low / unit`, `high / unit` of the interval of reals
that round to it; the ends belong to the interval iff `closed`. -/
structure Rounding where
  value : Nat
  low : Nat
  high : Nat
  unit : Nat
  closed : Bool

/-- The interval of `m · 2 ^ q`: half a unit on either side, but a quarter below a power of two,
where the doubles below are twice as dense. -/
def rounding (m : Nat) (q : Int) : Rounding :=
  let up := Nat.pow 2 (q - 2).toNat
  let below := if m = 4503599627370496 ∧ -1074 < q then 1 else 2
  { value := 4 * m * up
    low := (4 * m - below) * up
    high := (4 * m + 2) * up
    unit := Nat.pow 2 (2 - q).toNat
    closed := m % 2 = 0 }

/-- The exponent `k` with `10 ^ k ≤ value / unit < 10 ^ (k + 1)`. -/
def Rounding.magnitude (r : Rounding) : Int :=
  if r.unit ≤ r.value then ((Text.digits (r.value / r.unit)).length : Int) - 1
  else -((Text.digits ((r.unit + r.value - 1) / r.value - 1)).length : Int)

/-- A decimal number `coefficient · 10 ^ exponent`. -/
structure Digits where
  coefficient : Nat
  exponent : Int
  deriving DecidableEq, Repr

/-- The better of the two neighbours of the value among the multiples of `10 ^ exponent`, if one
of them lies in the interval. Of two equally near ones the upper is taken. -/
def Rounding.neighbour? (r : Rounding) (exponent : Int) : Option Digits :=
  let up := Nat.pow 10 (-exponent).toNat
  let unit := r.unit * Nat.pow 10 exponent.toNat
  let floor := r.value * up / unit
  let inside (c : Nat) : Bool :=
    if r.closed then r.low * up ≤ c * unit && c * unit ≤ r.high * up
    else r.low * up < c * unit && c * unit < r.high * up
  match inside floor, inside (floor + 1) with
  | true, true =>
    if r.value * up - floor * unit < (floor + 1) * unit - r.value * up then
      some ⟨floor, exponent⟩
    else some ⟨floor + 1, exponent⟩
  | true, false => some ⟨floor, exponent⟩
  | false, true => some ⟨floor + 1, exponent⟩
  | false, false => none

/-- The same number without the zeros at the end of its coefficient. -/
def Digits.normalize (d : Digits) : Digits :=
  if h : d.coefficient ≠ 0 ∧ d.coefficient % 10 = 0 then
    Digits.normalize ⟨d.coefficient / 10, d.exponent + 1⟩
  else d
termination_by d.coefficient
decreasing_by omega

/-- The magnitude of a finite double in the fewest digits that read back. Seventeen always do. -/
def shortest (x : Binary64) : Digits :=
  if x.significand = 0 then ⟨0, 0⟩
  else
    let r := rounding x.significand x.exponent
    let k := r.magnitude
    let found := (List.range 17).findSome? fun (n : Nat) => r.neighbour? (k - (n : Int))
    (found.getD ⟨0, 0⟩).normalize

def zeros (n : Nat) : List Char := List.replicate n '0'

/-- Digits with the point `point` places from their left end, which may lie outside them. -/
def pointed (ds : List Char) (point : Int) : List Char :=
  if point ≤ 0 then '0' :: '.' :: (zeros (-point).toNat ++ ds)
  else if ds.length ≤ point.toNat then ds ++ zeros (point.toNat - ds.length)
  else ds.take point.toNat ++ '.' :: ds.drop point.toNat

def signed (x : Binary64) (cs : List Char) : List Char := if x.isNegative then '-' :: cs else cs

/-- The shortest decimal in positional notation at every size; whole numbers have no point. -/
def plainText (x : Binary64) : List Char :=
  let d := x.shortest
  let ds := Text.digits d.coefficient
  x.signed (pointed ds (ds.length + d.exponent))

/-- The shortest decimal with a point or an exponent in it: positional from `1e-5` up to `1e16`. -/
def scientificText (x : Binary64) : List Char :=
  let d := x.shortest
  let ds := Text.digits d.coefficient
  let point : Int := ds.length + d.exponent
  x.signed <|
    if -5 < point ∧ point ≤ 16 then
      let cs := pointed ds point
      if cs.contains '.' then cs else cs ++ ['.', '0']
    else
      let fraction := if ds.length ≤ 1 then [] else '.' :: ds.drop 1
      ds.take 1 ++ fraction ++ 'e' :: Text.signedDigits (point - 1)

end Binary64
end MarketFeed
