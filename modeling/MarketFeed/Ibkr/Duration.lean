import MarketFeed.Market.History

/-!
# MarketFeed.Ibkr.Duration

How Interactive Brokers names the extent and the grain of a history request.

* `Duration` — whole seconds, whole days, or whole years of 365 days.
* `Duration.covering` — the duration asked for to cover a span.
* `barSize` — the name of an interval.
-/

namespace MarketFeed
namespace Ibkr

inductive Duration where
  | seconds (n : Nat)
  | days (n : Nat)
  | years (n : Nat)
  deriving DecidableEq, Repr

namespace Duration

def secondsInDay : Nat := 86400

def daysInYear : Nat := 365

/-- The length in seconds. -/
def length : Duration → Nat
  | .seconds n => n
  | .days n => n * secondsInDay
  | .years n => n * (daysInYear * secondsInDay)

def text : Duration → String
  | .seconds n => s!"{n} S"
  | .days n => s!"{n} D"
  | .years n => s!"{n} Y"

/-- The quotient rounded up. -/
def ceilDiv (n d : Nat) : Nat := (n + d - 1) / d

/-- At least a second; seconds up to a day, then days up to a year, then years. A started day or
year counts as a whole one. -/
def covering (s : Span) : Duration :=
  let secs := max s.seconds 1
  if secs ≤ secondsInDay then .seconds secs
  else
    let days := ceilDiv secs secondsInDay
    if days ≤ daysInYear then .days days else .years (ceilDiv days daysInYear)

end Duration

/-- A count with its unit, in the plural unless it is one. -/
def counted (n : UInt32) (unit : String) : String :=
  if n = 1 then "1 " ++ unit else s!"{n} {unit}s"

def barSize : Interval → String
  | .second n => s!"{n} secs"
  | .minute n => counted n "min"
  | .hour n => counted n "hour"
  | .daily => "1 day"
  | .weekly => "1 week"
  | .monthly => "1 month"

end Ibkr
end MarketFeed
