import MarketFeed.Binance.Kline
import MarketFeed.Binance.Trade
import MarketFeed.Ibkr.Quote
import MarketFeed.Market.Bar
import MarketFeed.Market.Interval
import MarketFeed.Text.Case

/-!
# MarketFeed.Collector.Normalize

From what the venues deliver to canonical bars and ticks.

* `Kline.toBar`, `Trade.toTick` — from Binance; a time that is no moment is refused.
* `HistoryBar.toBar`, `Ticker.toTick?` — from Interactive Brokers; a ticker without a last price
  is no trade.
-/

namespace MarketFeed

/-- A time in epoch milliseconds that is no moment. -/
structure OutOfRange where
  millis : Int
  deriving DecidableEq, Repr

def OutOfRange.message (e : OutOfRange) : String := s!"timestamp out of range: {e.millis} ms"

def Instant.ofMillis (ms : Int) : Except OutOfRange Instant :=
  match Instant.ofMillis? ms with
  | some t => .ok t
  | none => .error ⟨ms⟩

namespace Binance

def Kline.toBar (k : Kline) (symbol : String) (interval : Interval) : Except OutOfRange Bar :=
  (Instant.ofMillis k.openTime).map fun timestamp =>
    { exchange := "binance"
      symbol := Text.upperText symbol
      interval := interval.code
      timestamp := timestamp
      «open» := k.open
      high := k.high
      low := k.low
      close := k.close
      volume := k.volume
      quoteVolume := some k.quoteVolume
      tradeCount := some k.tradeCount
      extra := .ofList [("close_time", .ofInt k.closeTime),
        ("taker_buy_base_volume", .ofDecimal k.takerBuyBaseVolume),
        ("taker_buy_quote_volume", .ofDecimal k.takerBuyQuoteVolume)] }

/-- A maker who bought means a taker who sold. -/
def Trade.side (t : Trade) : Side := if t.buyerIsMaker then .sell else .buy

def Trade.toTick (t : Trade) : Except OutOfRange Tick :=
  (Instant.ofMillis t.tradeTime).map fun timestamp =>
    { exchange := "binance"
      symbol := t.symbol
      source := "binance_ws"
      timestamp := timestamp
      price := t.price
      size := t.quantity
      side := some t.side
      extra := .ofList [("trade_id", .ofNat t.id.toNat)] }

end Binance

namespace Ibkr

/-- The members for the optional prices that are there. -/
def priceMembers (l : List (String × Option Decimal)) : Json.Members :=
  .ofList (l.filterMap fun p => p.2.map fun d => (p.1, .ofDecimal d))

def HistoryBar.toBar (b : HistoryBar) (contract : Contract) (interval : Interval) : Bar :=
  { exchange := contract.exchange
    symbol := contract.symbol
    interval := interval.code
    timestamp := b.date
    «open» := b.open
    high := b.high
    low := b.low
    close := b.close
    volume := b.volume
    quoteVolume := none
    tradeCount := b.count
    extra := priceMembers [("wap", b.average)] }

/-- The tick of the contract that was asked for. A size that is missing is zero. -/
def Ticker.toTick? (t : Ticker) (contract : Contract) : Option Tick :=
  t.last.map fun price =>
    { exchange := contract.exchange
      symbol := contract.symbol
      source := "ibkr"
      timestamp := t.time
      price := price
      size := t.lastSize.getD .zero
      side := none
      extra := priceMembers [("bid", t.bid), ("ask", t.ask)] }

end Ibkr
end MarketFeed
