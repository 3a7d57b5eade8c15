import MarketFeed.Venue.Error
import MarketFeed.Time.Span

/-!
# MarketFeed.Pacing.Limiter

A sliding window: at most `rate` grants in any window of length `per`. Times and lengths are
nanoseconds of a clock.

* `Limiter` — the bounds and the recent grants, oldest first.
* `Limiter.evict` — forgets the grants that have left the window.
* `Limiter.acquire` — a grant now, or the time until when there can be none.
-/

namespace MarketFeed

inductive LimiterError where
  | zeroRate
  | zeroWindow
  deriving DecidableEq, Repr

namespace LimiterError

def message : LimiterError → String
  | .zeroRate => "rate must be greater than zero"
  | .zeroWindow => "window must be longer than zero"

def toVenueError (e : LimiterError) : VenueError := .config e.message

end LimiterError

structure Limiter where
  rate : Nat
  per : Nat
  /-- The times of the grants that may still count, oldest first. -/
  recent : List Nat
  rate_pos : 0 < rate
  per_pos : 0 < per
  deriving DecidableEq, Repr

/-- What an attempt to acquire comes to. -/
inductive Grant where
  | granted
  /-- Not before this time. -/
  | notBefore (time : Nat)
  deriving DecidableEq, Repr

namespace Limiter

def new (rate : UInt32) (per : Span) : Except LimiterError Limiter :=
  if hr : 0 < rate.toNat then
    if hp : 0 < per.toNanos then .ok ⟨rate.toNat, per.toNanos, [], hr, hp⟩
    else .error .zeroWindow
  else .error .zeroRate

/-- Whether a grant has left the window by `now`. -/
def isOver (l : Limiter) (now grant : Nat) : Bool := l.per ≤ now - grant

def evict (l : Limiter) (now : Nat) : Limiter :=
  { l with recent := l.recent.dropWhile (l.isOver now) }

/-- One attempt: the full window has to lose its oldest grant first. -/
def acquire (l : Limiter) (now : Nat) : Grant × Limiter :=
  let l := l.evict now
  if l.recent.length < l.rate then (.granted, { l with recent := l.recent ++ [now] })
  else (.notBefore (l.recent.headD now + l.per), l)

/-- The number of grants that count at `now`. -/
def inWindow (l : Limiter) (now : Nat) : Nat × Limiter :=
  let l := l.evict now
  (l.recent.length, l)

end Limiter
end MarketFeed
