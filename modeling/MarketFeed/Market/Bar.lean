import MarketFeed.Market.Tick

/-!
# MarketFeed.Market.Bar

* `Bar` — one bar of prices and volumes in canonical form; its time is the one it opens at.
* `Bar.key` — what identifies it: exchange, symbol, interval code and time.
* `Bar.value`, `Bar.ofTree?` — its JSON form.
-/

namespace MarketFeed

structure Bar where
  exchange : String
  symbol : String
  interval : String
  timestamp : Instant
  «open» : Decimal
  high : Decimal
  low : Decimal
  close : Decimal
  volume : Decimal
  quoteVolume : Option Decimal
  tradeCount : Option UInt64
  extra : Json.Members
  deriving Inhabited

namespace Bar

def key (b : Bar) : RowKey := ⟨b.exchange, b.symbol, b.interval, b.timestamp⟩

def fieldNames : List String :=
  ["exchange", "symbol", "interval", "timestamp", "open", "high", "low", "close", "volume",
    "quote_volume", "trade_count", "extra"]

/-- Reads a record in which `room` containers may be open, the record itself among them. -/
def ofTreeWithin? (room : Nat) (t : Json.Tree) : Option Bar :=
  match Json.fields? fieldNames true t with
  | some [exchange, symbol, interval, timestamp, «open», high, low, close, volume, quoteVolume,
      tradeCount, extra] => do
    let exchange ← Json.required? Json.Tree.text? exchange
    let symbol ← Json.required? Json.Tree.text? symbol
    let interval ← Json.required? Json.Tree.text? interval
    let timestamp ← Json.required? Json.Tree.instant? timestamp
    let «open» ← Json.required? Json.Tree.decimal? «open»
    let high ← Json.required? Json.Tree.decimal? high
    let low ← Json.required? Json.Tree.decimal? low
    let close ← Json.required? Json.Tree.decimal? close
    let volume ← Json.required? Json.Tree.decimal? volume
    let quoteVolume ← Json.optional? Json.Tree.decimal? quoteVolume
    let tradeCount ← Json.optional? Json.Tree.word64? tradeCount
    let extra ← Json.defaulted? (Json.Tree.membersWithin? (room - 1)) [] extra
    some ⟨exchange, symbol, interval, timestamp, «open», high, low, close, volume, quoteVolume,
      tradeCount.map UInt64.ofNat, extra⟩
  | _ => none

def ofTree? (t : Json.Tree) : Option Bar := ofTreeWithin? Json.maxDepth t

def value (b : Bar) : Json.Value :=
  .record [("exchange", .string b.exchange), ("symbol", .string b.symbol),
    ("interval", .string b.interval), ("timestamp", .ofInstant b.timestamp),
    ("open", .ofDecimal b.open), ("high", .ofDecimal b.high), ("low", .ofDecimal b.low),
    ("close", .ofDecimal b.close), ("volume", .ofDecimal b.volume),
    ("quote_volume", .ofOption .ofDecimal b.quoteVolume),
    ("trade_count", .ofOption (fun n => .ofNat n.toNat) b.tradeCount),
    ("extra", .object b.extra)]

end Bar
end MarketFeed
