/-!
# MarketFeed.Tasks.Lock

* `Lock` — a lock that is handed to its callers in the order in which they asked for it.
-/

namespace MarketFeed

/-- The callers by number; the first holds the lock, the others wait for it. -/
structure Lock where
  queue : List Nat
  deriving DecidableEq, Repr

namespace Lock

def free : Lock := ⟨[]⟩

def join (l : Lock) (who : Nat) : Lock := ⟨l.queue ++ [who]⟩

/-- Gives the lock back, or gives up waiting for it. -/
def leave (l : Lock) (who : Nat) : Lock := ⟨l.queue.filter (· ≠ who)⟩

def heldBy (l : Lock) (who : Nat) : Bool := l.queue.head? = some who

end Lock
end MarketFeed
