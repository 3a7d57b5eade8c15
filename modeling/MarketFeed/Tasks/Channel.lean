/-!
# MarketFeed.Tasks.Channel

* `Channel` — a bounded queue from a sender to a receiver.
* `Channel.send?` — what the sender does; it has to wait while the queue is full.
* `Channel.receive` — what the receiver finds.
-/

namespace MarketFeed

structure Channel (α : Type) where
  capacity : Nat
  /-- What was sent and not yet received, oldest first. -/
  items : List α
  /-- The receiver has gone. -/
  closed : Bool
  /-- The sender has gone. -/
  ended : Bool

/-- What a receiver finds. -/
inductive Received (α : Type) where
  | item (a : α)
  | empty
  /-- Nothing will come any more. -/
  | ended
  deriving DecidableEq, Repr

namespace Channel

variable {α : Type}

def new (capacity : Nat) : Channel α := ⟨capacity, [], false, false⟩

/-- Queues an item; none while there is no room. -/
def send? (c : Channel α) (a : α) : Option (Channel α) :=
  if c.items.length < c.capacity then some { c with items := c.items ++ [a] } else none

def receive (c : Channel α) : Received α × Channel α :=
  match c.items with
  | a :: rest => (.item a, { c with items := rest })
  | [] => (if c.ended then .ended else .empty, c)

/-- The receiver goes, and with it what is queued. -/
def close (c : Channel α) : Channel α := { c with items := [], closed := true }

/-- The sender goes; what is queued stays. -/
def finish (c : Channel α) : Channel α := { c with ended := true }

/-- The receiver would find something, be it the end. -/
def isReady (c : Channel α) : Bool := !c.items.isEmpty || c.ended

end Channel
end MarketFeed
