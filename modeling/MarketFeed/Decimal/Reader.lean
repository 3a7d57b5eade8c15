import MarketFeed.Decimal.Basic
import MarketFeed.Json.Tree
import MarketFeed.Binary64.Shortest

/-!
# MarketFeed.Decimal.Reader

Reading decimals.

* `positional?` — a sign, digits with at most one point, and underscores after the first digit.
  Places that do not fit are cut, a half rounds away from zero. A whole part that does not fit is
  refused.
* `exponential?` — positional notation, `e`, and a whole exponent.
* `read?` — either of them.
* `ofNum?` — the decimal of a JSON number; a double through its shortest decimal.
-/

namespace MarketFeed
namespace Decimal

/-- A decimal being read: the magnitude and scale so far, whether the point and a digit were
seen. -/
structure Partial where
  magnitude : Nat
  scale : Nat
  point : Bool
  digit : Bool
  deriving DecidableEq, Repr

def isDigitOrUnderscore (c : Char) : Bool := Text.isDigit c || c = '_'

/-- Cuts a fraction before its first digit `next` that does not fit. A magnitude that rounds up to
one that is too large loses a place. -/
def cut? (p : Partial) (next : Char) : Option Partial :=
  if Text.isDigit next && 5 ≤ Text.digitValue next then
    if p.magnitude + 1 < mantissaBound then some { p with magnitude := p.magnitude + 1 }
    else if p.scale = 0 then none
    else some { p with magnitude := (p.magnitude + 1 + 4) / 10, scale := p.scale - 1 }
  else some p

/-- What follows the cut is dropped, but has to be digits and underscores. -/
def finishCut? (p : Partial) (next : Char) (rest : List Char) : Option Partial :=
  if isDigitOrUnderscore next && rest.all isDigitOrUnderscore then cut? p next else none

/-- Reads the unsigned part from its first character. -/
def readUnsigned? (p : Partial) : List Char → Option Partial
  | [] => if p.digit then some p else none
  | c :: rest =>
    if p.digit && p.point && maxScale ≤ p.scale then finishCut? p c rest
    else if Text.isDigit c then
      let magnitude := p.magnitude * 10 + Text.digitValue c
      if magnitude < mantissaBound then
        let scale := if p.point then p.scale + 1 else 0
        readUnsigned? { p with magnitude := magnitude, scale := scale, digit := true } rest
      else if p.point then finishCut? p c rest
      else none
    else if c = '.' && !p.point then readUnsigned? { p with point := true } rest
    else if c = '_' && p.digit then readUnsigned? p rest
    else none

/-- An optional sign and the rest; true for a minus sign. -/
def sign (cs : List Char) : Bool × List Char :=
  match cs with
  | '-' :: rest => (true, rest)
  | '+' :: rest => (false, rest)
  | cs => (false, cs)

def positional? (cs : List Char) : Option Decimal :=
  let (negative, cs) := sign cs
  (readUnsigned? ⟨0, 0, false, false⟩ cs).bind fun p => ofParts? negative p.magnitude p.scale

/-- A natural number of 32 bits: digits after an optional plus sign. -/
def word32? (cs : List Char) : Option Nat :=
  let ds := match cs with
    | '+' :: rest => rest
    | cs => cs
  (Text.number? ds).bind fun n => if n < 4294967296 then some n else none

/-- `d · 10 ^ -e`, by more places. -/
def shiftRight? (d : Decimal) (e : Nat) : Option Decimal :=
  if maxScale < e then none else ofUnits? d.units (d.scale + e)

/-- `d · 10 ^ e`, by fewer places, and once there are none by more digits. -/
def shiftLeft? (d : Decimal) (e : Nat) : Option Decimal :=
  if e ≤ d.scale then ofUnits? d.units (d.scale - e)
  else if maxScale < e then none
  else ofUnits? (d.units * Nat.pow 10 (e - d.scale)) 0

def isExponentMark (c : Char) : Bool := c = 'e' || c = 'E'

def exponential? (cs : List Char) : Option Decimal :=
  match cs.dropWhile fun c => !isExponentMark c with
  | [] => none
  | _ :: exponent =>
    (positional? (cs.takeWhile fun c => !isExponentMark c)).bind fun d =>
      match exponent with
      | '-' :: ds => (word32? ds).bind (shiftRight? d)
      | ds => (word32? ds).bind (shiftLeft? d)

def read? (cs : List Char) : Option Decimal := (positional? cs).or (exponential? cs)

def ofText? (s : String) : Option Decimal := read? s.toList

def ofNum? : Json.Num → Option Decimal
  | .int i => ofInt? i
  | .float x => positional? x.plainText

end Decimal
end MarketFeed
