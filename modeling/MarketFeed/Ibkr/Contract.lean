import MarketFeed.Json.Record

/-!
# MarketFeed.Ibkr.Contract

* `Contract` — what is traded at Interactive Brokers.
* `Contract.key` — what tickers are matched by: symbol, exchange and currency.
* `Contract.display` — the contract in a log line.
-/

namespace MarketFeed
namespace Ibkr

structure Contract where
  symbol : String
  securityType : String
  exchange : String
  currency : String
  deriving DecidableEq, Repr, Inhabited

/-- Symbol, exchange and currency of a contract, compared exactly. -/
structure ContractKey where
  symbol : String
  exchange : String
  currency : String
  deriving DecidableEq, Repr

namespace Contract

def stock (symbol exchange currency : String) : Contract := ⟨symbol, "STK", exchange, currency⟩

def future (symbol exchange currency : String) : Contract := ⟨symbol, "FUT", exchange, currency⟩

def key (c : Contract) : ContractKey := ⟨c.symbol, c.exchange, c.currency⟩

def display (c : Contract) : String := s!"{c.symbol}@{c.exchange} ({c.currency})"

def ofTree? (t : Json.Tree) : Option Contract :=
  match Json.fields? ["symbol", "sec_type", "exchange", "currency"] false t with
  | some [symbol, securityType, exchange, currency] => do
    let symbol ← Json.required? Json.Tree.text? symbol
    let securityType ← Json.required? Json.Tree.text? securityType
    let exchange ← Json.required? Json.Tree.text? exchange
    let currency ← Json.required? Json.Tree.text? currency
    some ⟨symbol, securityType, exchange, currency⟩
  | _ => none

def value (c : Contract) : Json.Value :=
  .record [("symbol", .string c.symbol), ("sec_type", .string c.securityType),
    ("exchange", .string c.exchange), ("currency", .string c.currency)]

end Contract
end Ibkr
end MarketFeed
