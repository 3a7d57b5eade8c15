import MarketFeed.Json.Record

/-!
# MarketFeed.Market.Tick

* `Side` — the side that the taker of a trade was on.
* `Tick` — one trade in canonical form.
* `Tick.key` — what identifies it: exchange, symbol, source and time.
* `Tick.value`, `Tick.ofTree?` — its JSON form.
-/

namespace MarketFeed

inductive Side where
  | buy
  | sell
  deriving DecidableEq, Repr, Inhabited

namespace Side

def name : Side → String
  | .buy => "buy"
  | .sell => "sell"

def ofTree? (t : Json.Tree) : Option Side :=
  (Json.variant? t).bind fun (name, content) =>
    if Json.isUnit content then
      if name = "buy" then some .buy else if name = "sell" then some .sell else none
    else none

def value (s : Side) : Json.Value := .string s.name

end Side

/-- The identity of a stored row: three names and a time. -/
structure RowKey where
  exchange : String
  symbol : String
  /-- The source of a tick, the interval of a bar. -/
  kind : String
  time : Instant
  deriving DecidableEq, Repr

/-- Order by the names, code point by code point, then by time. -/
def RowKey.order (a b : RowKey) : Ordering :=
  (compare a.exchange b.exchange).then <| (compare a.symbol b.symbol).then <|
    (compare a.kind b.kind).then (a.time.order b.time)

def RowKey.value (k : RowKey) : Json.Value :=
  .array [.string k.exchange, .string k.symbol, .string k.kind, .ofInstant k.time]

/-- A trade. `source` names the feed, `extra` holds what only the venue knows. -/
structure Tick where
  exchange : String
  symbol : String
  source : String
  timestamp : Instant
  price : Decimal
  size : Decimal
  side : Option Side
  extra : Json.Members
  deriving Inhabited

namespace Tick

def key (t : Tick) : RowKey := ⟨t.exchange, t.symbol, t.source, t.timestamp⟩

def fieldNames : List String :=
  ["exchange", "symbol", "source", "timestamp", "price", "size", "side", "extra"]

/-- Reads a record in which `room` containers may be open, the record itself among them. -/
def ofTreeWithin? (room : Nat) (t : Json.Tree) : Option Tick :=
  match Json.fields? fieldNames true t with
  | some [exchange, symbol, source, timestamp, price, size, side, extra] => do
    let exchange ← Json.required? Json.Tree.text? exchange
    let symbol ← Json.required? Json.Tree.text? symbol
    let source ← Json.required? Json.Tree.text? source
    let timestamp ← Json.required? Json.Tree.instant? timestamp
    let price ← Json.required? Json.Tree.decimal? price
    let size ← Json.required? Json.Tree.decimal? size
    let side ← Json.optional? Side.ofTree? side
    let extra ← Json.defaulted? (Json.Tree.membersWithin? (room - 1)) [] extra
    some ⟨exchange, symbol, source, timestamp, price, size, side, extra⟩
  | _ => none

def ofTree? (t : Json.Tree) : Option Tick := ofTreeWithin? Json.maxDepth t

def value (t : Tick) : Json.Value :=
  .record [("exchange", .string t.exchange), ("symbol", .string t.symbol),
    ("source", .string t.source), ("timestamp", .ofInstant t.timestamp),
    ("price", .ofDecimal t.price), ("size", .ofDecimal t.size),
    ("side", .ofOption Side.value t.side), ("extra", .object t.extra)]

end Tick
end MarketFeed
