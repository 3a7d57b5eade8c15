import MarketFeed.Text.Digits

/-!
# MarketFeed.Text.Integer

Integers in a range, read from text.

* `IntegerError` — why a text is no such integer, with its message.
* `integer` — an optional sign and digits, read from the left up to the first fault. A minus sign
  may stand only where the range has negative numbers.
-/

namespace MarketFeed
namespace Text

inductive IntegerError where
  | empty
  | invalidDigit
  | tooLarge
  | tooSmall
  deriving DecidableEq, Repr

def IntegerError.message : IntegerError → String
  | .empty => "cannot parse integer from empty string"
  | .invalidDigit => "invalid digit found in string"
  | .tooLarge => "number too large to fit in target type"
  | .tooSmall => "number too small to fit in target type"

/-- Digits after a number that is already read; the result is at most `bound`. -/
def magnitude (bound : Nat) (overflow : IntegerError) : Nat → List Char → Except IntegerError Nat
  | n, [] => .ok n
  | n, c :: rest =>
    if isDigit c then
      let n := n * 10 + digitValue c
      if n ≤ bound then magnitude bound overflow n rest else .error overflow
    else .error .invalidDigit

/-- An integer from `-below` to `above`. -/
def integer (below above : Nat) : List Char → Except IntegerError Int
  | [] => .error .empty
  | ['+'] => .error .invalidDigit
  | ['-'] => .error .invalidDigit
  | '+' :: cs => (magnitude above .tooLarge 0 cs).map Int.ofNat
  | '-' :: cs =>
    if below = 0 then .error .invalidDigit
    else (magnitude below .tooSmall 0 cs).map fun n => -Int.ofNat n
  | cs => (magnitude above .tooLarge 0 cs).map Int.ofNat

end Text
end MarketFeed
