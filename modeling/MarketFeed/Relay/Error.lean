import MarketFeed.Wire.Frame

/-!
# MarketFeed.Relay.Error

What can go wrong on a relay connection.

* `RelayError` — the causes, each with its message.
* `isConnectionError` — the bytes did not get through: a fresh connection may help.
* `isProtocolViolation` — the peer broke the rules: the connection cannot be trusted.
-/

namespace MarketFeed
namespace Relay

/-- A failure of the transport. -/
inductive IoFault where
  /-- The bytes ended inside a frame or between two. -/
  | endOfInput
  /-- Written to a connection that the peer has closed. -/
  | brokenPipe
  | refused
  | other (text : String)
  deriving DecidableEq, Repr

def IoFault.text : IoFault → String
  | .endOfInput => "unexpected end of input"
  | .brokenPipe => "broken pipe"
  | .refused => "connection refused"
  | .other text => text

inductive RelayError where
  | io (fault : IoFault)
  | timeout (awaited : String)
  | connectionClosed
  | notConnected
  | logonRejected (reason : String)
  | subscriptionRejected (symbol exchange reason : String)
  | correlationMismatch (expected got : UInt32)
  | unexpectedMessage (code : UInt16)
  | malformed (m : Wire.Malformation)
  deriving DecidableEq, Repr

namespace RelayError

def message : RelayError → String
  | .io fault => "I/O error: " ++ fault.text
  | .timeout awaited => "Timed out waiting for " ++ awaited
  | .connectionClosed => "Connection closed by peer"
  | .notConnected => "Not connected"
  | .logonRejected reason => "Logon rejected: " ++ reason
  | .subscriptionRejected symbol exchange reason =>
    s!"Subscription to {symbol}@{exchange} rejected: {reason}"
  | .correlationMismatch expected got => s!"Response carried request id {got}, expected {expected}"
  | .unexpectedMessage code => s!"Unexpected message type {code}"
  | .malformed m => "Malformed frame: " ++ m.message

/-- A malformed frame counts among these: the bytes are out of step, not the peer out of order. -/
def isConnectionError : RelayError → Bool
  | .io _ | .timeout _ | .connectionClosed | .notConnected | .malformed _ => true
  | .logonRejected _ | .subscriptionRejected .. | .correlationMismatch .. | .unexpectedMessage _ =>
    false

def isProtocolViolation : RelayError → Bool
  | .correlationMismatch .. | .unexpectedMessage _ => true
  | .io _ | .timeout _ | .connectionClosed | .notConnected | .logonRejected _
  | .subscriptionRejected .. | .malformed _ => false

def ofDecodeError : Wire.DecodeError → RelayError
  | .malformed m => .malformed m
  | .unexpected code => .unexpectedMessage code

end RelayError
end Relay
end MarketFeed
