import MarketFeed.Ibkr.Contract

/-!
# MarketFeed.Ibkr.Quote

What Interactive Brokers delivers.

* `HistoryBar` — a bar of a history request.
* `Ticker` — the state of a contract at a moment.
-/

namespace MarketFeed
namespace Ibkr

structure HistoryBar where
  date : Instant
  «open» : Decimal
  high : Decimal
  low : Decimal
  close : Decimal
  volume : Decimal
  count : Option UInt64
  /-- The price averaged by volume. -/
  average : Option Decimal
  deriving DecidableEq, Repr, Inhabited

structure Ticker where
  contract : Contract
  time : Instant
  last : Option Decimal
  lastSize : Option Decimal
  bid : Option Decimal
  ask : Option Decimal
  deriving DecidableEq, Repr, Inhabited

namespace HistoryBar

def fieldNames : List String :=
  ["date", "open", "high", "low", "close", "volume", "bar_count", "wap"]

def ofTree? (t : Json.Tree) : Option HistoryBar :=
  match Json.fields? fieldNames false t with
  | some [date, «open», high, low, close, volume, count, average] => do
    let date ← Json.required? Json.Tree.instant? date
    let «open» ← Json.required? Json.Tree.decimal? «open»
    let high ← Json.required? Json.Tree.decimal? high
    let low ← Json.required? Json.Tree.decimal? low
    let close ← Json.required? Json.Tree.decimal? close
    let volume ← Json.required? Json.Tree.decimal? volume
    let count ← Json.optional? Json.Tree.word64? count
    let average ← Json.optional? Json.Tree.decimal? average
    some ⟨date, «open», high, low, close, volume, count.map UInt64.ofNat, average⟩
  | _ => none

def value (b : HistoryBar) : Json.Value :=
  .record [("date", .ofInstant b.date), ("open", .ofDecimal b.open), ("high", .ofDecimal b.high),
    ("low", .ofDecimal b.low), ("close", .ofDecimal b.close), ("volume", .ofDecimal b.volume),
    ("bar_count", .ofOption (fun n => .ofNat n.toNat) b.count),
    ("wap", .ofOption .ofDecimal b.average)]

end HistoryBar

namespace Ticker

def fieldNames : List String := ["contract", "time", "last", "last_size", "bid", "ask"]

def ofTree? (t : Json.Tree) : Option Ticker :=
  match Json.fields? fieldNames false t with
  | some [contract, time, last, lastSize, bid, ask] => do
    let contract ← Json.required? Contract.ofTree? contract
    let time ← Json.required? Json.Tree.instant? time
    let last ← Json.optional? Json.Tree.decimal? last
    let lastSize ← Json.optional? Json.Tree.decimal? lastSize
    let bid ← Json.optional? Json.Tree.decimal? bid
    let ask ← Json.optional? Json.Tree.decimal? ask
    some ⟨contract, time, last, lastSize, bid, ask⟩
  | _ => none

def value (t : Ticker) : Json.Value :=
  .record [("contract", t.contract.value), ("time", .ofInstant t.time),
    ("last", .ofOption .ofDecimal t.last), ("last_size", .ofOption .ofDecimal t.lastSize),
    ("bid", .ofOption .ofDecimal t.bid), ("ask", .ofOption .ofDecimal t.ask)]

end Ticker
end Ibkr
end MarketFeed
