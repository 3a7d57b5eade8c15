import MarketFeed.Json.Record

/-!
# MarketFeed.Ibkr.Config

* `Ibkr.Config` — how the connector to Interactive Brokers is paced and what it asks for.
-/

namespace MarketFeed
namespace Ibkr

structure Config where
  reconnectDelayMillis : UInt64
  /-- The calls allowed in a window. -/
  rateLimit : UInt32
  rateWindowSeconds : UInt64
  whatToShow : String
  /-- Only data from regular trading hours. -/
  regularHours : Bool
  /-- The tickers that may wait for their consumer. -/
  streamBuffer : UInt64
  deriving DecidableEq, Repr

namespace Config

def default : Config := ⟨5000, 45, 1, "TRADES", false, 1024⟩

instance : Inhabited Config := ⟨default⟩

def fieldNames : List String :=
  ["reconnect_delay_ms", "rate_limit", "rate_window_secs", "what_to_show", "use_rth",
    "stream_buffer"]

def ofTree? (t : Json.Tree) : Option Config :=
  match Json.fields? fieldNames false t with
  | some [delay, rate, window, whatToShow, regularHours, buffer] => do
    let delay ← Json.required? Json.Tree.word64? delay
    let rate ← Json.required? Json.Tree.word32? rate
    let window ← Json.required? Json.Tree.word64? window
    let whatToShow ← Json.required? Json.Tree.text? whatToShow
    let regularHours ← Json.required? Json.Tree.bool? regularHours
    let buffer ← Json.required? Json.Tree.word64? buffer
    some ⟨.ofNat delay, .ofNat rate, .ofNat window, whatToShow, regularHours, .ofNat buffer⟩
  | _ => none

def value (c : Config) : Json.Value :=
  .record [("reconnect_delay_ms", .ofNat c.reconnectDelayMillis.toNat),
    ("rate_limit", .ofNat c.rateLimit.toNat),
    ("rate_window_secs", .ofNat c.rateWindowSeconds.toNat),
    ("what_to_show", .string c.whatToShow), ("use_rth", .bool c.regularHours),
    ("stream_buffer", .ofNat c.streamBuffer.toNat)]

end Config
end Ibkr
end MarketFeed
