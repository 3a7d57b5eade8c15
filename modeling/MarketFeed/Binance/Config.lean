import MarketFeed.Json.Record

/-!
# MarketFeed.Binance.Config

* `Binance.Config` — where Binance is and how the connector to it is paced.
-/

namespace MarketFeed
namespace Binance

structure Config where
  restBase : String
  wsBase : String
  reconnectDelayMillis : UInt64
  /-- The calls allowed in a window. -/
  rateLimit : UInt32
  rateWindowSeconds : UInt64
  requestTimeoutSeconds : UInt64
  /-- The trades that may wait for their consumer. -/
  streamBuffer : UInt64
  deriving DecidableEq, Repr

namespace Config

def default : Config :=
  ⟨"https://api.binance.com", "wss://stream.binance.com:9443", 5000, 1200, 60, 10, 1024⟩

instance : Inhabited Config := ⟨default⟩

def fieldNames : List String :=
  ["rest_base", "ws_base", "reconnect_delay_ms", "rate_limit", "rate_window_secs",
    "request_timeout_secs", "stream_buffer"]

def ofTree? (t : Json.Tree) : Option Config :=
  match Json.fields? fieldNames false t with
  | some [restBase, wsBase, delay, rate, window, timeout, buffer] => do
    let restBase ← Json.required? Json.Tree.text? restBase
    let wsBase ← Json.required? Json.Tree.text? wsBase
    let delay ← Json.required? Json.Tree.word64? delay
    let rate ← Json.required? Json.Tree.word32? rate
    let window ← Json.required? Json.Tree.word64? window
    let timeout ← Json.required? Json.Tree.word64? timeout
    let buffer ← Json.required? Json.Tree.word64? buffer
    some ⟨restBase, wsBase, .ofNat delay, .ofNat rate, .ofNat window, .ofNat timeout, .ofNat buffer⟩
  | _ => none

def value (c : Config) : Json.Value :=
  .record [("rest_base", .string c.restBase), ("ws_base", .string c.wsBase),
    ("reconnect_delay_ms", .ofNat c.reconnectDelayMillis.toNat),
    ("rate_limit", .ofNat c.rateLimit.toNat),
    ("rate_window_secs", .ofNat c.rateWindowSeconds.toNat),
    ("request_timeout_secs", .ofNat c.requestTimeoutSeconds.toNat),
    ("stream_buffer", .ofNat c.streamBuffer.toNat)]

end Config
end Binance
end MarketFeed
