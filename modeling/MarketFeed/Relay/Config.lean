import MarketFeed.Json.Record

/-!
# MarketFeed.Relay.Config

* `RelayConfig` — where the relay's server is, how to log on to it, and how long to wait for it.
-/

namespace MarketFeed

structure RelayConfig where
  host : String
  port : UInt16
  username : String
  password : String
  /-- The name under which the client logs on. -/
  clientName : String
  /-- The heartbeat interval that the client announces; zero for none. -/
  heartbeatSeconds : UInt16
  /-- The time in milliseconds for dialling and logging on, and for the answer to a subscription. -/
  handshakeTimeoutMillis : UInt64
  deriving DecidableEq, Repr

namespace RelayConfig

def default : RelayConfig := ⟨"127.0.0.1", 11099, "", "", "feedhub", 0, 5000⟩

instance : Inhabited RelayConfig := ⟨default⟩

def handshakeTimeout (c : RelayConfig) : Span := .ofMillis c.handshakeTimeoutMillis.toNat

def fieldNames : List String :=
  ["host", "port", "username", "password", "client_name", "heartbeat_interval_secs",
    "handshake_timeout_ms"]

def ofTree? (t : Json.Tree) : Option RelayConfig :=
  match Json.fields? fieldNames false t with
  | some [host, port, username, password, clientName, heartbeat, timeout] => do
    let host ← Json.required? Json.Tree.text? host
    let port ← Json.required? Json.Tree.word16? port
    let username ← Json.required? Json.Tree.text? username
    let password ← Json.required? Json.Tree.text? password
    let clientName ← Json.required? Json.Tree.text? clientName
    let heartbeat ← Json.required? Json.Tree.word16? heartbeat
    let timeout ← Json.required? Json.Tree.word64? timeout
    some ⟨host, .ofNat port, username, password, clientName, .ofNat heartbeat, .ofNat timeout⟩
  | _ => none

def value (c : RelayConfig) : Json.Value :=
  .record [("host", .string c.host), ("port", .ofNat c.port.toNat),
    ("username", .string c.username), ("password", .string c.password),
    ("client_name", .string c.clientName),
    ("heartbeat_interval_secs", .ofNat c.heartbeatSeconds.toNat),
    ("handshake_timeout_ms", .ofNat c.handshakeTimeoutMillis.toNat)]

end RelayConfig
end MarketFeed
