import MarketFeed.Market.History
import MarketFeed.Text.Case
import MarketFeed.Text.Digits

/-!
# MarketFeed.Binance.Endpoint

Where Binance answers.

* `tradeStreamUrl` — the trade stream of a symbol.
* `klinesUrl`, `klinesParameters` — the history of a symbol.
-/

namespace MarketFeed
namespace Binance

/-- A base address without slashes at its end. -/
def withoutSlash (base : String) : String := String.ofList (Text.dropTrailing '/' base.toList)

def tradeStreamUrl (base symbol : String) : String :=
  withoutSlash base ++ "/ws/" ++ Text.lowerText symbol ++ "@trade"

/-- The most bars that one request may ask for. -/
def maxKlines : Nat := 1000

def klinesUrl (base : String) : String := withoutSlash base ++ "/api/v3/klines"

def klinesParameters (symbol : String) (r : HistoryRequest) : List (String × String) :=
  [("symbol", Text.upperText symbol), ("interval", r.interval.code)] ++
    (r.start.map fun t => ("startTime", toString t.millis)).toList ++
    (r.end.map fun t => ("endTime", toString t.millis)).toList ++
    (r.limit.map fun n => ("limit", toString (min n.toNat maxKlines))).toList

end Binance
end MarketFeed
