import MarketFeed.Json.Reader
import MarketFeed.Json.Record
import MarketFeed.Venue.Error

/-!
# MarketFeed.Binance.Trade

* `Trade` — an event of Binance's trade stream.
* `Trade.ofFrame` — reads a frame of the stream, which may also be an acknowledgement or another
  kind of event.
-/

namespace MarketFeed
namespace Binance

/-- Times are epoch milliseconds. -/
structure Trade where
  eventTime : Int
  symbol : String
  id : UInt64
  price : Decimal
  quantity : Decimal
  tradeTime : Int
  /-- The buyer's order rested in the book, so the taker sold. -/
  buyerIsMaker : Bool
  deriving DecidableEq, Repr, Inhabited

namespace Trade

def ofTree? (t : Json.Tree) : Option Trade :=
  match Json.fields? ["E", "s", "t", "p", "q", "T", "m"] false t with
  | some [eventTime, symbol, id, price, quantity, tradeTime, buyerIsMaker] => do
    let eventTime ← Json.required? Json.Tree.int64? eventTime
    let symbol ← Json.required? Json.Tree.text? symbol
    let id ← Json.required? Json.Tree.word64? id
    let price ← Json.required? Json.Tree.decimal? price
    let quantity ← Json.required? Json.Tree.decimal? quantity
    let tradeTime ← Json.required? Json.Tree.int64? tradeTime
    let buyerIsMaker ← Json.required? Json.Tree.bool? buyerIsMaker
    some ⟨eventTime, symbol, .ofNat id, price, quantity, tradeTime, buyerIsMaker⟩
  | _ => none

/-- What a frame carries: its `data` member if it has one, otherwise itself. -/
def payload (v : Json.Value) : Json.Value :=
  match v with
  | .object members => (Json.Members.get? members "data").getD v
  | v => v

/-- What the payload of a frame announces. -/
inductive Event where
  /-- The answer to a request. -/
  | acknowledgement
  | trade
  | other
  /-- No event at all. -/
  | unnamed
  deriving DecidableEq, Repr

def event : Json.Value → Event
  | .object members =>
    if (Json.Members.get? members "result").isSome then .acknowledgement
    else
      match Json.Members.get? members "e" with
      | some (.string name) => if name = "trade" then .trade else .other
      | _ => .unnamed
  | _ => .unnamed

/-- The trade of a frame; none if it carries something else. -/
def ofFrame (text : String) : Except VenueError (Option Trade) :=
  match Json.decode? text.toList with
  | none => .error (.decode "trade frame")
  | some v =>
    let p := payload v
    match event p with
    | .acknowledgement => .ok none
    | .other => .ok none
    | .unnamed => .error (.decode ("trade frame without event type: " ++ text))
    | .trade =>
      match ofTree? p.tree with
      | some t => .ok (some t)
      | none => .error (.decode "trade frame")

def value (t : Trade) : Json.Value :=
  .record [("event_time", .ofInt t.eventTime), ("symbol", .string t.symbol),
    ("trade_id", .ofNat t.id.toNat), ("price", .ofDecimal t.price),
    ("quantity", .ofDecimal t.quantity), ("trade_time", .ofInt t.tradeTime),
    ("buyer_is_maker", .bool t.buyerIsMaker)]

end Trade
end Binance
end MarketFeed
