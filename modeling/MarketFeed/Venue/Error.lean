/-!
# MarketFeed.Venue.Error

* `VenueError` — what can go wrong at a venue, with its message.
-/

namespace MarketFeed

inductive VenueError where
  | http (text : String)
  | webSocket (text : String)
  | decode (text : String)
  /-- The venue answered, but refused the request. -/
  | vendor (text : String)
  | notConnected
  | config (text : String)
  deriving DecidableEq, Repr

def VenueError.message : VenueError → String
  | .http text => "HTTP error: " ++ text
  | .webSocket text => "WebSocket error: " ++ text
  | .decode text => "Decode error: " ++ text
  | .vendor text => "Vendor error: " ++ text
  | .notConnected => "Not connected"
  | .config text => "Invalid configuration: " ++ text

end MarketFeed
