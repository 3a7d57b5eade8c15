/-!
# MarketFeed.Store.Error

* `StoreError` — what can go wrong when rows are written, with its message.
-/

namespace MarketFeed

inductive StoreError where
  | database (text : String)
  | serialization (text : String)
  deriving DecidableEq, Repr

def StoreError.message : StoreError → String
  | .database text => "Database error: " ++ text
  | .serialization text => "Serialization error: " ++ text

end MarketFeed
