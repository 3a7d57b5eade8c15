/-!
# MarketFeed.Time.Span

Lengths of time, never negative, in whole seconds of 64 bits and nanoseconds.

* `Span` — the length.
* `Span.ofParts?` — nanoseconds beyond a second are carried.
* `Span.times?` — a multiple, if it fits.
-/

namespace MarketFeed

structure Span where
  seconds : Nat
  nanos : Nat
  seconds_lt : seconds < 18446744073709551616
  nanos_lt : nanos < 1000000000
  deriving DecidableEq, Repr

namespace Span

def zero : Span := ⟨0, 0, by decide, by decide⟩

instance : Inhabited Span := ⟨zero⟩

/-- The longest span. -/
def max : Span := ⟨18446744073709551615, 999999999, by decide, by decide⟩

/-- A span of any number of nanoseconds, if it fits. -/
def ofNanos? (n : Nat) : Option Span :=
  if h : n / 1000000000 < 18446744073709551616 then some ⟨n / 1000000000, n % 1000000000, h, Nat.mod_lt _ (by decide)⟩
  else none

def ofParts? (seconds nanos : Nat) : Option Span := ofNanos? (seconds * 1000000000 + nanos)

def toNanos (s : Span) : Nat := s.seconds * 1000000000 + s.nanos

/-- A span of so many seconds; a longer one is cut to the longest. -/
def ofSeconds (n : Nat) : Span := (ofParts? n 0).getD max

def times? (s : Span) (n : Nat) : Option Span := ofNanos? (s.toNanos * n)

def millis (s : Span) : Nat := s.toNanos / 1000000

def ofMillis (n : Nat) : Span := (ofNanos? (n * 1000000)).getD max

def isZero (s : Span) : Bool := s.seconds = 0 && s.nanos = 0

end Span
end MarketFeed
