/-!
# MarketFeed.Time.Calendar

The proleptic Gregorian calendar, with years of any sign.

* `Date` — a year, a month and a day.
* `Date.toDay` — the number of days from 1 January 1970 to a date.
* `Date.ofDay` — the date that is a number of days after 1 January 1970.

Both count from 1 March of a year divisible by 400, so that the leap day is the last one of a year,
of a century and of a cycle of 146097 days.
-/

namespace MarketFeed

structure Date where
  year : Int
  month : Nat
  day : Nat
  deriving DecidableEq, Repr

namespace Date

def isLeap (year : Int) : Bool :=
  year % 4 = 0 && (year % 100 ≠ 0 || year % 400 = 0)

def daysInMonth (year : Int) (month : Nat) : Nat :=
  match month with
  | 2 => if isLeap year then 29 else 28
  | 4 | 6 | 9 | 11 => 30
  | _ => 31

/-- The date exists. -/
def Valid (d : Date) : Prop :=
  1 ≤ d.month ∧ d.month ≤ 12 ∧ 1 ≤ d.day ∧ d.day ≤ daysInMonth d.year d.month

instance (d : Date) : Decidable d.Valid := by unfold Valid; infer_instance

/-- The days from 1 March of year 0 to 1 January 1970. -/
def epochShift : Int := 719468

def daysInCycle : Int := 146097

def toDay (d : Date) : Int :=
  let y := if d.month ≤ 2 then d.year - 1 else d.year
  let ofCycle := y % 400
  let monthFromMarch : Int := (d.month + 9) % 12
  let ofYear := (153 * monthFromMarch + 2) / 5 + d.day - 1
  y / 400 * daysInCycle + (ofCycle * 365 + ofCycle / 4 - ofCycle / 100 + ofYear) - epochShift

def ofDay (day : Int) : Date :=
  let z := day + epochShift
  let ofCycle := z % daysInCycle
  let year := (ofCycle - ofCycle / 1460 + ofCycle / 36524 - ofCycle / 146096) / 365
  let ofYear := ofCycle - (365 * year + year / 4 - year / 100)
  let monthFromMarch := (5 * ofYear + 2) / 153
  let day := ofYear - (153 * monthFromMarch + 2) / 5 + 1
  let month := if monthFromMarch < 10 then monthFromMarch + 3 else monthFromMarch - 9
  let y := year + z / daysInCycle * 400
  ⟨if month ≤ 2 then y + 1 else y, month.toNat, day.toNat⟩

example : toDay ⟨1970, 1, 1⟩ = 0 := by decide
example : ofDay 0 = ⟨1970, 1, 1⟩ := by decide
example : toDay ⟨2024, 2, 29⟩ = 19782 ∧ ofDay 19782 = ⟨2024, 2, 29⟩ := by decide
example : ofDay (-1) = ⟨1969, 12, 31⟩ := by decide

end Date
end MarketFeed
