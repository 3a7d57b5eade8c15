/-!
# MarketFeed.Tasks.Broadcast

* `Broadcast` — what was sent to any number of receivers. It holds the last items only: a receiver
  that is slow loses the older ones.
* `Broadcast.next` — what a receiver finds at its position.
-/

namespace MarketFeed

structure Broadcast (α : Type) where
  /-- The number of items that are held. -/
  capacity : Nat
  /-- All items so far, oldest first. -/
  sent : List α
  /-- Nothing will be sent any more. -/
  ended : Bool

/-- What a receiver finds. -/
inductive Heard (α : Type) where
  | item (a : α)
  /-- Items were lost; the next one held is at this position. -/
  | lagged (position : Nat)
  | empty
  /-- Nothing will come any more. -/
  | ended
  deriving DecidableEq, Repr

namespace Broadcast

variable {α : Type}

/-- The capacity is rounded up to a power of two. -/
def new (capacity : Nat) : Broadcast α := ⟨capacity.nextPowerOfTwo, [], false⟩

def send (b : Broadcast α) (a : α) : Broadcast α := { b with sent := b.sent ++ [a] }

/-- The position of a receiver that begins now. -/
def position (b : Broadcast α) : Nat := b.sent.length

def next (b : Broadcast α) (position : Nat) : Heard α :=
  if position + b.capacity < b.sent.length then .lagged (b.sent.length - b.capacity)
  else
    match b.sent[position]? with
    | some a => .item a
    | none => if b.ended then .ended else .empty

end Broadcast
end MarketFeed
