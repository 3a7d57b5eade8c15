import MarketFeed.Json.Tree
import MarketFeed.Text.Digits

/-!
# MarketFeed.Json.Number

Number literals: an optional minus sign, an integer part without leading zeros, an optional
fraction and an optional exponent.

* `Literal` — the parts of a literal, `Literal.read?` takes a word apart.
* `Literal.num?` — the number: an integer where the literal is a whole number of at most 64 bits,
  otherwise a double, and `none` beyond the doubles.

A double is made from at most 64 bits of the digits, scaled once by a power of ten, so it may be
one unit in the last place off the nearest one.
-/

namespace MarketFeed
namespace Json

structure Literal where
  negative : Bool
  whole : List Char
  fraction : List Char
  /-- The exponent's sign, true if negative, and its digits. -/
  exponent : Option (Bool × List Char)
  deriving DecidableEq, Repr

/-- The digits at the start of a text, and the rest. -/
def spanDigits (cs : List Char) : List Char × List Char :=
  (cs.takeWhile Text.isDigit, cs.dropWhile Text.isDigit)

/-- The exponent part: a letter, an optional sign, and at least one digit up to the end. -/
def readExponent? : List Char → Option (Option (Bool × List Char))
  | [] => some none
  | c :: rest =>
    if c = 'e' ∨ c = 'E' then
      let (negative, ds) := match rest with
        | '-' :: ds => (true, ds)
        | '+' :: ds => (false, ds)
        | ds => (false, ds)
      if ds ≠ [] ∧ ds.all Text.isDigit then some (some (negative, ds)) else none
    else none

/-- Takes a word apart; none if it is no number literal. -/
def Literal.read? (word : List Char) : Option Literal := do
  let (negative, cs) := match word with
    | '-' :: cs => (true, cs)
    | cs => (false, cs)
  let (whole, cs) := spanDigits cs
  if whole = [] ∨ (whole.length ≠ 1 ∧ whole.head? = some '0') then none
  else
    let (fraction, cs) ← match cs with
      | '.' :: cs =>
        let (fraction, cs) := spanDigits cs
        if fraction = [] then none else some (fraction, cs)
      | cs => some ([], cs)
    let exponent ← readExponent? cs
    some ⟨negative, whole, fraction, exponent⟩

/-- A significand of at most 64 bits with a power of ten. -/
structure Scaled where
  significand : Nat
  exponent : Int
  deriving DecidableEq, Repr

/-- Appends digits while the significand fits 64 bits. The flag tells whether all did; `dropped`
digits from the first that did not fit are left. -/
def Scaled.append (s : Scaled) (place : Int) : List Char → Scaled × Nat
  | [] => (s, 0)
  | d :: rest =>
    let n := s.significand * 10 + Text.digitValue d
    if n < 18446744073709551616 then Scaled.append ⟨n, s.exponent + place⟩ place rest
    else (s, rest.length + 1)

/-- The powers of ten that a double can be scaled by in one step. -/
def maxPower : Nat := 308

def power (n : Nat) : Float := Float.ofScientific 1 false n

/-- `f · 10 ^ e`; none if that is beyond the doubles. Very small exponents are reached in steps. -/
def scale? (f : Float) (e : Int) : Option Float :=
  if e.natAbs ≤ maxPower then
    if 0 ≤ e then
      let r := f * power e.toNat
      if r.isInf then none else some r
    else some (f / power e.natAbs)
  else if f == 0 then some f
  else if 0 ≤ e then none
  else scale? (f / power maxPower) (e + maxPower)
termination_by e.natAbs
decreasing_by simp only [maxPower] at *; omega

/-- The largest exponent that is still computed with. -/
def maxExponent : Nat := 2147483647

/-- The double of a literal, without its sign. -/
def Literal.magnitude? (l : Literal) : Option Float :=
  let (s, dropped) := Scaled.append ⟨0, 0⟩ 0 l.whole
  let s : Scaled := ⟨s.significand, dropped⟩
  let s := (Scaled.append s (-1) l.fraction).1
  match l.exponent with
  | none => scale? (Float.ofNat s.significand) s.exponent
  | some (negative, ds) =>
    let e := Text.number ds
    if maxExponent < e then
      if s.significand ≠ 0 ∧ negative = false then none else some 0
    else scale? (Float.ofNat s.significand) (if negative then s.exponent - e else s.exponent + e)

/-- The number that a literal denotes. Negative zero is a double. -/
def Literal.num? (l : Literal) : Option Num :=
  let n := Text.number l.whole
  let whole := l.fraction = [] ∧ l.exponent = none
  if whole ∧ l.negative = false ∧ n < 18446744073709551616 then some (.int n)
  else if whole ∧ l.negative = true ∧ 0 < n ∧ n ≤ 9223372036854775808 then some (.int (-n))
  else l.magnitude?.map fun f => .float (.ofFloat (if l.negative then -f else f))

end Json
end MarketFeed
