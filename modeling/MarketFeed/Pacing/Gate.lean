import MarketFeed.Pacing.Limiter

/-!
# MarketFeed.Pacing.Gate

A limiter that is shared by many callers. They queue up, and only the first of the queue may try;
while it waits for the window, all others wait behind it.

* `Gate` — the limiter and the queue; `α` names the callers.
* `Gate.acquire?`, `Gate.count?` — what the caller at the front gets, if anything yet.
* `Gate.leave` — a caller gives up.
-/

namespace MarketFeed

structure Gate (α : Type) where
  limiter : Limiter
  /-- The callers, first come first served. -/
  queue : List α

namespace Gate

variable {α : Type} [DecidableEq α]

def new (l : Limiter) : Gate α := ⟨l, []⟩

def join (g : Gate α) (who : α) : Gate α := { g with queue := g.queue ++ [who] }

def leave (g : Gate α) (who : α) : Gate α := { g with queue := g.queue.filter (· ≠ who) }

/-- A grant for the caller at the front; none while it has to wait. -/
def acquire? (g : Gate α) (now : Nat) (who : α) : Option (Gate α) :=
  if g.queue.head? = some who then
    match g.limiter.acquire now with
    | (.granted, l) => some ⟨l, g.queue.tail⟩
    | (.notBefore _, _) => none
  else none

/-- The number of grants in the window, for the caller at the front. -/
def count? (g : Gate α) (now : Nat) (who : α) : Option (Nat × Gate α) :=
  if g.queue.head? = some who then
    let (n, l) := g.limiter.inWindow now
    some (n, ⟨l, g.queue.tail⟩)
  else none

/-- The time that the caller at the front may be waiting for. -/
def alarms (g : Gate α) : List Nat :=
  match g.queue, g.limiter.recent with
  | _ :: _, oldest :: _ => [oldest + g.limiter.per]
  | _, _ => []

end Gate
end MarketFeed
