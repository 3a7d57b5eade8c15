import MarketFeed.Ibkr.Duration
import MarketFeed.Ibkr.Quote
import MarketFeed.Tasks.Broadcast
import MarketFeed.Venue.Error

/-!
# MarketFeed.Ibkr.Gateway

The gateway to Interactive Brokers: one connection, requests on it, and tickers of all contracts
in one place.

* `HistoricalRequest` — what is asked for about the past of a contract.
* `Behaviour` — what comes of the calls, by number.
* `Gateway` — a gateway with the calls so far.
-/

namespace MarketFeed
namespace Ibkr

structure HistoricalRequest where
  /-- None means now. -/
  endTime : Option Instant
  duration : Duration
  barSize : String
  whatToShow : String
  regularHours : Bool
  deriving DecidableEq, Repr

inductive GatewayCall where
  | connect
  | disconnect
  | marketData (contract : Contract)
  | cancel (contract : Contract)
  | history (contract : Contract) (request : HistoricalRequest)
  deriving DecidableEq, Repr

structure Behaviour where
  /-- The time that connecting takes. -/
  connectDelay : Nat
  /-- What connecting fails with, if it does. -/
  connectFailure : Nat → Option VenueError
  /-- What a request for market data fails with, if it does. -/
  marketFailure : Nat → Option VenueError
  history : Nat → Except VenueError (List HistoryBar)
  /-- The number of ticker events that are held for slow receivers. -/
  eventCapacity : Nat

structure Gateway where
  behaviour : Behaviour
  isConnected : Bool
  /-- The numbers of calls so far. -/
  connects : Nat
  marketRequests : Nat
  historyRequests : Nat
  /-- The ticker events; all but the last have ended. -/
  events : List (Broadcast (List Ticker))
  /-- The calls so far, with their times. -/
  calls : List (Nat × GatewayCall)

namespace Gateway

def new (behaviour : Behaviour) (isConnected : Bool) : Gateway :=
  ⟨behaviour, isConnected, 0, 0, 0, [.new behaviour.eventCapacity], []⟩

def log (g : Gateway) (now : Nat) (call : GatewayCall) : Gateway :=
  { g with calls := g.calls ++ [(now, call)] }

/-- Begins to connect. -/
def beginConnect (g : Gateway) (now : Nat) : Gateway := g.log now .connect

/-- The end of connecting. -/
def finishConnect (g : Gateway) : Except VenueError Unit × Gateway :=
  let counted := { g with connects := g.connects + 1 }
  match g.behaviour.connectFailure g.connects with
  | some e => (.error e, counted)
  | none => (.ok (), { counted with isConnected := true })

def disconnect (g : Gateway) (now : Nat) : Gateway :=
  { g.log now .disconnect with isConnected := false }

def requestMarketData (g : Gateway) (now : Nat) (c : Contract) :
    Except VenueError Unit × Gateway :=
  let asked := { g.log now (.marketData c) with marketRequests := g.marketRequests + 1 }
  match g.behaviour.marketFailure g.marketRequests with
  | some e => (.error e, asked)
  | none => (.ok (), asked)

/-- It does not matter whether this succeeds. -/
def cancelMarketData (g : Gateway) (now : Nat) (c : Contract) : Gateway := g.log now (.cancel c)

def requestHistory (g : Gateway) (now : Nat) (c : Contract) (r : HistoricalRequest) :
    Except VenueError (List HistoryBar) × Gateway :=
  (g.behaviour.history g.historyRequests,
    { g.log now (.history c r) with historyRequests := g.historyRequests + 1 })

/-! ## Ticker events -/

/-- Where a receiver is: the number of the events, and the position in them. -/
structure Subscription where
  source : Nat
  position : Nat
  deriving DecidableEq, Repr

/-- Receives the events from now on. -/
def subscribe (g : Gateway) : Subscription :=
  ⟨g.events.length - 1, (g.events.getLast?.map Broadcast.position).getD 0⟩

/-- What a receiver finds. -/
def hear (g : Gateway) (s : Subscription) : Heard (List Ticker) :=
  match g.events[s.source]? with
  | some b => b.next s.position
  | none => .ended

def publish (g : Gateway) (batch : List Ticker) : Gateway :=
  { g with events := g.events.modify (g.events.length - 1) fun b => b.send batch }

/-- The events end, and others take their place. -/
def endEvents (g : Gateway) : Gateway :=
  { g with
    events := g.events.map (fun b => { b with ended := true }) ++
      [.new g.behaviour.eventCapacity] }

end Gateway
end Ibkr
end MarketFeed
