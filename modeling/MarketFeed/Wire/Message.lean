import MarketFeed.Wire.Field

/-!
# MarketFeed.Wire.Message

The messages of the relay protocol.

* `Message` — the seven kinds of message.
* `MessageKind` — the kinds alone, each with its type code and the layout of its payload.
* `Message.row`, `Message.ofRow` — a message as the row of its fields, and back.
-/

namespace MarketFeed
namespace Wire

inductive MessageKind where
  | logonRequest
  | logonResponse
  | heartbeat
  | logoff
  | subscribe
  | subscriptionResponse
  | tradeUpdate
  deriving DecidableEq, Repr

namespace MessageKind

def code : MessageKind → UInt16
  | .logonRequest => 1
  | .logonResponse => 2
  | .heartbeat => 3
  | .logoff => 5
  | .subscribe => 101
  | .subscriptionResponse => 102
  | .tradeUpdate => 107

def all : List MessageKind :=
  [.logonRequest, .logonResponse, .heartbeat, .logoff, .subscribe, .subscriptionResponse,
    .tradeUpdate]

def ofCode? (code : UInt16) : Option MessageKind := all.find? (·.code == code)

/-- Symbols and texts take 64 bytes, all other names 32. -/
def layout : MessageKind → Layout
  | .logonRequest => [.word16, .text 32, .text 32, .word16, .text 32]
  | .logonResponse => [.word16, .word16, .text 64]
  | .heartbeat => [.word32]
  | .logoff => [.text 64]
  | .subscribe => [.word32, .text 64, .text 32]
  | .subscriptionResponse => [.word32, .word16, .text 64]
  | .tradeUpdate => [.word32, .text 64, .text 32, .double, .double, .double]

end MessageKind

inductive Message where
  | logonRequest (version : UInt16) (username password : String) (heartbeatSeconds : UInt16)
      (clientName : String)
  | logonResponse (version result : UInt16) (text : String)
  | heartbeat (dropped : UInt32)
  | logoff (reason : String)
  | subscribe (id : UInt32) (symbol exchange : String)
  | subscriptionResponse (id : UInt32) (result : UInt16) (reason : String)
  /-- A trade; its time is in seconds since the epoch. -/
  | tradeUpdate (id : UInt32) (symbol exchange : String) (price size time : Binary64)
  deriving DecidableEq, Repr

namespace Message

def kind : Message → MessageKind
  | .logonRequest .. => .logonRequest
  | .logonResponse .. => .logonResponse
  | .heartbeat .. => .heartbeat
  | .logoff .. => .logoff
  | .subscribe .. => .subscribe
  | .subscriptionResponse .. => .subscriptionResponse
  | .tradeUpdate .. => .tradeUpdate

def row : (m : Message) → Row m.kind.layout
  | .logonRequest version username password heartbeatSeconds clientName =>
    (version, username, password, heartbeatSeconds, clientName, ())
  | .logonResponse version result text => (version, result, text, ())
  | .heartbeat dropped => (dropped, ())
  | .logoff reason => (reason, ())
  | .subscribe id symbol exchange => (id, symbol, exchange, ())
  | .subscriptionResponse id result reason => (id, result, reason, ())
  | .tradeUpdate id symbol exchange price size time => (id, symbol, exchange, price, size, time, ())

def ofRow : (k : MessageKind) → Row k.layout → Message
  | .logonRequest, (version, username, password, heartbeatSeconds, clientName, _) =>
    .logonRequest version username password heartbeatSeconds clientName
  | .logonResponse, (version, result, text, _) => .logonResponse version result text
  | .heartbeat, (dropped, _) => .heartbeat dropped
  | .logoff, (reason, _) => .logoff reason
  | .subscribe, (id, symbol, exchange, _) => .subscribe id symbol exchange
  | .subscriptionResponse, (id, result, reason, _) => .subscriptionResponse id result reason
  | .tradeUpdate, (id, symbol, exchange, price, size, time, _) =>
    .tradeUpdate id symbol exchange price size time

theorem ofRow_row (m : Message) : ofRow m.kind m.row = m := by cases m <;> rfl

end Message

theorem MessageKind.ofCode?_code (k : MessageKind) : ofCode? k.code = some k := by
  cases k <;> decide

end Wire
end MarketFeed
