import MarketFeed.Json.Reader
import MarketFeed.Json.Record
import MarketFeed.Venue.Error

/-!
# MarketFeed.Binance.Kline

* `Kline` — a row of Binance's bar history.
* `Kline.readAll` — the rows of a response body, an array of arrays of twelve items.
-/

namespace MarketFeed
namespace Binance

/-- Times are epoch milliseconds. -/
structure Kline where
  openTime : Int
  «open» : Decimal
  high : Decimal
  low : Decimal
  close : Decimal
  volume : Decimal
  closeTime : Int
  quoteVolume : Decimal
  tradeCount : UInt64
  takerBuyBaseVolume : Decimal
  takerBuyQuoteVolume : Decimal
  deriving DecidableEq, Repr, Inhabited

namespace Kline

/-- A row; its last item may be any value, in which `room - 1` containers may be open. -/
def ofTreeWithin? (room : Nat) : Json.Tree → Option Kline
  | .array [openTime, «open», high, low, close, volume, closeTime, quoteVolume, tradeCount,
      takerBuyBaseVolume, takerBuyQuoteVolume, unused] => do
    let openTime ← openTime.int64?
    let «open» ← «open».decimal?
    let high ← high.decimal?
    let low ← low.decimal?
    let close ← close.decimal?
    let volume ← volume.decimal?
    let closeTime ← closeTime.int64?
    let quoteVolume ← quoteVolume.decimal?
    let tradeCount ← tradeCount.word64?
    let takerBuyBaseVolume ← takerBuyBaseVolume.decimal?
    let takerBuyQuoteVolume ← takerBuyQuoteVolume.decimal?
    let _ ← unused.valueWithin? (room - 1)
    some ⟨openTime, «open», high, low, close, volume, closeTime, quoteVolume, .ofNat tradeCount,
      takerBuyBaseVolume, takerBuyQuoteVolume⟩
  | _ => none

def ofTree? (t : Json.Tree) : Option Kline := ofTreeWithin? Json.maxDepth t

/-- The rows of a response body. -/
def readAll (body : String) : Except VenueError (List Kline) :=
  let rows := (Json.read? body.toList).bind (Json.Tree.list? (ofTreeWithin? (Json.maxDepth - 1)))
  match rows with
  | some rows => .ok rows
  | none => .error (.decode "klines")

def value (k : Kline) : Json.Value :=
  .record [("open_time", .ofInt k.openTime), ("open", .ofDecimal k.open),
    ("high", .ofDecimal k.high), ("low", .ofDecimal k.low), ("close", .ofDecimal k.close),
    ("volume", .ofDecimal k.volume), ("close_time", .ofInt k.closeTime),
    ("quote_volume", .ofDecimal k.quoteVolume), ("trade_count", .ofNat k.tradeCount.toNat),
    ("taker_buy_base_volume", .ofDecimal k.takerBuyBaseVolume),
    ("taker_buy_quote_volume", .ofDecimal k.takerBuyQuoteVolume)]

end Kline
end Binance
end MarketFeed
