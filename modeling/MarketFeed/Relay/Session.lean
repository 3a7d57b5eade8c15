import MarketFeed.Decimal.Double
import MarketFeed.Market.Tick
import MarketFeed.Relay.Connection

/-!
# MarketFeed.Relay.Session

A connection after its logon. A reader takes frames off the connection and queues them for the
client, which subscribes to each listing once and sends the trades under its number.

* `Session` — the queue, the subscriptions, and the next request number.
* `Session.receive` — what the reader does with the next arrival. Heartbeats are passed over; a
  full queue drops what comes; an error ends the reader and is queued last if there is room.
* `Session.discardStale`, `Session.answer` — the client's two ways to empty the queue.
-/

namespace MarketFeed
namespace Relay

/-- What a subscription is for. -/
structure Listing where
  symbol : String
  exchange : String
  deriving DecidableEq, Repr

structure Session where
  /-- The number of the connection. -/
  connection : Nat
  /-- The reader has not ended. -/
  alive : Bool
  /-- What the reader has queued, oldest first: frames, and the error that ended it. -/
  inbound : List (Except RelayError Wire.Frame)
  subscriptions : List (Listing × UInt32)
  nextId : UInt32

/-- The most that the queue holds. -/
def inboundCapacity : Nat := 64

def trade (id : UInt32) (t : Tick) : Wire.Message :=
  let seconds := Binary64.nearestInt t.timestamp.micros / 1000000
  .tradeUpdate id t.symbol t.exchange t.price.toBinary64 t.size.toBinary64 (.ofFloat seconds)

namespace Session

def start (connection : Nat) : Session := ⟨connection, true, [], [], 1⟩

/-- Queues something if there is room. -/
def enqueue (s : Session) (item : Except RelayError Wire.Frame) : Session :=
  if s.inbound.length < inboundCapacity then { s with inbound := s.inbound ++ [item] } else s

/-- What the reader does with an arrival; none if there is nothing to do. -/
def receive (s : Session) : Arrival → Option Session
  | .frame f =>
    if f.code = Wire.MessageKind.heartbeat.code then some s else some (s.enqueue (.ok f))
  | .failure e => some ({ s with alive := false }.enqueue (.error e))
  | .nothing => none

def idOf? (s : Session) (l : Listing) : Option UInt32 :=
  (s.subscriptions.find? (·.1 = l)).map (·.2)

/-- The first error in the queue, if any, and the queue after it. -/
def firstError : List (Except RelayError Wire.Frame) →
    Option RelayError × List (Except RelayError Wire.Frame)
  | [] => (none, [])
  | .ok _ :: rest => firstError rest
  | .error e :: rest => (some e, rest)

/-- Empties the queue before a request, so that what comes next answers it. An error in the queue
is returned. -/
def discardStale (s : Session) : Option RelayError × Session :=
  let (e, rest) := firstError s.inbound
  (e, { s with inbound := rest })

/-- Why the reader has ended. -/
def terminalError (s : Session) : RelayError := (firstError s.inbound).1.getD .connectionClosed

/-- What an answer means for the request number `id` of a subscription. -/
def judge (id : UInt32) (l : Listing) (f : Wire.Frame) : Except RelayError Unit :=
  match Wire.Message.decode f with
  | .error e => .error (.ofDecodeError e)
  | .ok (.subscriptionResponse got result reason) =>
    if got ≠ id then .error (.correlationMismatch id got)
    else if result ≠ 0 then .error (.subscriptionRejected l.symbol l.exchange reason)
    else .ok ()
  | .ok (.logoff _) => .error .connectionClosed
  | .ok m => .error (.unexpectedMessage m.kind.code)

/-- The answer to a subscription, if there is one yet. -/
def answer (s : Session) (id : UInt32) (l : Listing) : Option (Except RelayError Unit × Session) :=
  match s.inbound with
  | .ok f :: rest => some (judge id l f, { s with inbound := rest })
  | .error e :: rest => some (.error e, { s with inbound := rest })
  | [] => if s.alive then none else some (.error .connectionClosed, s)

/-- Takes the next request number. -/
def takeId (s : Session) : UInt32 × Session := (s.nextId, { s with nextId := s.nextId + 1 })

def accept (s : Session) (l : Listing) (id : UInt32) : Session :=
  { s with subscriptions := s.subscriptions ++ [(l, id)] }

end Session
end Relay
end MarketFeed
