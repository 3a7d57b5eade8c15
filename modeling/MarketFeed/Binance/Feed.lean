/-!
# MarketFeed.Binance.Feed

What the trade stream offers. Items are numbered from zero, and there may be no end of them.

* `FeedItem`, `Frames` — what one connection delivers.
* `Opening` — what comes of the attempt to open one.
* `Feed` — the openings in order.
-/

namespace MarketFeed
namespace Binance

inductive FeedItem where
  | text (frame : String)
  | failure
  /-- Nothing for some time. -/
  | pause (length : Nat)
  deriving DecidableEq, Repr

/-- The items of a connection. After the last one it is closed, or stays open in silence. -/
structure Frames where
  item : Nat → Option FeedItem
  closes : Bool

/-- The time that an attempt takes, and the connection if there is one. -/
structure Opening where
  delay : Nat
  frames : Option Frames

/-- The attempts by number, for the symbol that each is for. -/
structure Feed where
  opening : Nat → String → Opening

namespace Frames

def ofList (items : List FeedItem) (closes : Bool) : Frames := ⟨fun n => items[n]?, closes⟩

end Frames

namespace Opening

/-- Fails at once. -/
def refused : Opening := ⟨0, none⟩

end Opening

namespace Feed

/-- Some openings, and what all later ones come to. -/
def ofList (openings : List Opening) (later : Opening) : Feed :=
  ⟨fun n _ => openings.getD n later⟩

end Feed
end Binance
end MarketFeed
