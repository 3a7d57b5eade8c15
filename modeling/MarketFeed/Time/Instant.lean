import MarketFeed.Time.Calendar
import MarketFeed.Time.Span

/-!
# MarketFeed.Time.Instant

Moments of universal time to the nanosecond, leap seconds included, from the year -262143 to the
year 262142.

* `Instant` — a day, a second of it, and nanoseconds; those from `1000000000` on lie in a leap second.
* `Instant.ofMillis?`, `Instant.millis` — from and to epoch milliseconds.
* `Instant.precedes` — the order of time.
* `Instant.since` — the length of time from an earlier moment.
-/

namespace MarketFeed

/-- 1 January of the year -262143. -/
def firstDay : Int := Date.toDay ⟨-262143, 1, 1⟩

/-- 31 December of the year 262142. -/
def lastDay : Int := Date.toDay ⟨262142, 12, 31⟩

/-- A moment. `day` counts from 1 January 1970; a leap second follows the last second of some
minute and shares its number. -/
structure Instant where
  day : Int
  second : Nat
  nanos : Nat
  firstDay_le : firstDay ≤ day
  day_le : day ≤ lastDay
  second_lt : second < 86400
  nanos_lt : nanos < 2000000000
  leap : 1000000000 ≤ nanos → second % 60 = 59
  deriving DecidableEq, Repr

namespace Instant

def epoch : Instant := ⟨0, 0, 0, by decide, by decide, by decide, by decide, by decide⟩

instance : Inhabited Instant := ⟨epoch⟩

def ofParts? (day : Int) (second nanos : Nat) : Option Instant :=
  if h : firstDay ≤ day ∧ day ≤ lastDay ∧ second < 86400 ∧ nanos < 2000000000 ∧
      (1000000000 ≤ nanos → second % 60 = 59) then
    some ⟨day, second, nanos, h.1, h.2.1, h.2.2.1, h.2.2.2.1, h.2.2.2.2⟩
  else none

/-- The moment `ms` milliseconds after the epoch, if it is in range. -/
def ofMillis? (ms : Int) : Option Instant :=
  ofParts? (ms / 86400000) (ms % 86400000 / 1000).toNat ((ms % 1000).toNat * 1000000)

/-- Whole seconds since the epoch, leap seconds not counted. -/
def unixSeconds (t : Instant) : Int := t.day * 86400 + t.second

/-- Epoch milliseconds, rounded down; a leap second runs on from the second before it. -/
def millis (t : Instant) : Int := t.unixSeconds * 1000 + t.nanos / 1000000

/-- Epoch microseconds, rounded down. -/
def micros (t : Instant) : Int := t.unixSeconds * 1000000 + t.nanos / 1000

/-- Comparison in the order of time. -/
def order (a b : Instant) : Ordering :=
  (compare a.day b.day).then ((compare a.second b.second).then (compare a.nanos b.nanos))

/-- Nanoseconds from `start` to `t`, negative if `start` is later. A leap second between the two
is counted only when one of them lies in it. -/
def nanosSince (t start : Instant) : Int :=
  let leap : Int :=
    if start.second < t.second then (if 1000000000 ≤ start.nanos then 1 else 0)
    else if t.second < start.second then (if 1000000000 ≤ t.nanos then -1 else 0)
    else 0
  (t.unixSeconds - start.unixSeconds + leap) * 1000000000 + ((t.nanos : Int) - start.nanos)

/-- The length of time from `start`; zero if `start` is later. -/
def since (t start : Instant) : Span :=
  (Span.ofNanos? (t.nanosSince start).toNat).getD .zero

end Instant
end MarketFeed
