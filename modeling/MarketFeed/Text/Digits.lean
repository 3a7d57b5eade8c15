/-!
# MarketFeed.Text.Digits

Natural numbers as decimal digits.

* `digits n` — the decimal digits of `n`, without leading zeros.
* `number? cs` — the number that a non-empty run of digits denotes.
* `digits_number?` — reading the digits of `n` gives `n`.
-/

namespace MarketFeed
namespace Text

def digitChar (d : Nat) : Char := Char.ofNat (48 + d)

def isDigit (c : Char) : Bool := 48 ≤ c.toNat && c.toNat ≤ 57

/-- The value of a digit; meaningful where `isDigit` holds. -/
def digitValue (c : Char) : Nat := c.toNat - 48

def digits (n : Nat) : List Char :=
  if n < 10 then [digitChar n] else digits (n / 10) ++ [digitChar (n % 10)]
termination_by n
decreasing_by omega

/-- The number that a run of digits denotes, read from the left. -/
def number (cs : List Char) : Nat := cs.foldl (fun n c => n * 10 + digitValue c) 0

/-- Refuses the empty run and every character that is not an ASCII digit. -/
def number? (cs : List Char) : Option Nat :=
  if cs ≠ [] ∧ cs.all isDigit = true then some (number cs) else none

/-- The digits of `n` after as many zeros as make at least `width` characters. -/
def paddedDigits (width n : Nat) : List Char :=
  List.replicate (width - (digits n).length) '0' ++ digits n

/-- An integer: a minus sign if it is negative, then its digits. -/
def signedDigits (i : Int) : List Char :=
  if i < 0 then '-' :: digits i.natAbs else digits i.natAbs

theorem isDigit_digitChar : ∀ d, d < 10 → isDigit (digitChar d) = true := by decide

theorem digitValue_digitChar : ∀ d, d < 10 → digitValue (digitChar d) = d := by decide

theorem digits_ne_nil (n : Nat) : digits n ≠ [] := by
  rw [digits]; split <;> simp

theorem all_isDigit_digits (n : Nat) : (digits n).all isDigit = true := by
  rw [digits]
  split
  · simp [isDigit_digitChar n (by assumption)]
  · simp [all_isDigit_digits (n / 10), isDigit_digitChar (n % 10) (by omega)]
termination_by n
decreasing_by omega

theorem number_digits (n : Nat) : number (digits n) = n := by
  rw [digits]
  split
  · simp [number, digitValue_digitChar n (by assumption)]
  · have ih := number_digits (n / 10)
    simp only [number] at ih
    simp only [number, List.foldl_append, List.foldl_cons, List.foldl_nil, ih,
      digitValue_digitChar (n % 10) (by omega)]
    omega
termination_by n
decreasing_by omega

theorem digits_number? (n : Nat) : number? (digits n) = some n := by
  simp only [number?, digits_ne_nil, all_isDigit_digits, number_digits, ne_eq, not_false_eq_true,
    and_self, if_true]

end Text
end MarketFeed
