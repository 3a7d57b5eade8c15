import MarketFeed.Ibkr.Config
import MarketFeed.Ibkr.Gateway
import MarketFeed.Market.History
import MarketFeed.Pacing.Gate
import MarketFeed.Tasks.Channel
import MarketFeed.Tasks.Lock
import MarketFeed.Tasks.System

/-!
# MarketFeed.Ibkr.Connector

The connector to Interactive Brokers. All its calls and streams share one connection, which is made
when it is needed, and one limiter: every call to the gateway but the disconnecting one takes a
grant of its own.

* `Dial`, `Connector.goDial` — making the connection, one caller at a time.
* `Call` — a wait for the connection, or a fetch.
* `Stage`, `Stream` — a stream, with the point at which it may have to wait.
* `Connector.goOn`, `Connector.notice` — a stream goes on, or learns that its consumer has gone.

A stream is a sequence of sessions. Every session ends with the cancelling of the market data,
whatever became of it; unless the consumer has gone, the gateway is then disconnected, and after a
delay there is another session.
-/

namespace MarketFeed
namespace Ibkr

/-- Where a caller may have to wait to be connected. -/
inductive Dial where
  /-- For its turn. -/
  | locking
  /-- For a grant to connect. -/
  | pacing
  /-- For the connection. -/
  | dialling (due : Nat)
  deriving DecidableEq, Repr

/-- What a caller wants. -/
inductive Task where
  | connect
  | fetch (contract : Contract) (request : HistoryRequest)
  deriving DecidableEq, Repr

/-- Where a call may have to wait. -/
inductive CallStage where
  | connecting (d : Dial)
  /-- For a grant to ask for history. -/
  | pacing
  | finished (result : Except VenueError (List HistoryBar))

structure Call where
  id : Nat
  task : Task
  stage : CallStage

/-- Where a stream may have to wait. -/
inductive Stage where
  | connecting (d : Dial)
  /-- For a grant to ask for market data; events are received already. -/
  | pacing (events : Gateway.Subscription)
  /-- For the next event. -/
  | reading (events : Gateway.Subscription)
  /-- For room in the queue to the consumer. -/
  | sending (tickers : List Ticker) (events : Gateway.Subscription)
  /-- For a grant to cancel the market data. -/
  | cancelling (consumerGone : Bool)
  /-- Until the next session. -/
  | pausing (due : Nat)
  | ended

structure Stream where
  id : Nat
  contract : Contract
  queue : Channel Ticker
  stage : Stage

structure Connector where
  config : Config
  gateway : Gateway
  gate : Gate Nat
  dialLock : Lock
  calls : List Call
  streams : List Stream
  nextId : Nat
  /-- The time of day at a time of the clock. -/
  timeOfDay : Nat → Instant

namespace Connector

def new (config : Config) (gateway : Gateway) (timeOfDay : Nat → Instant) :
    Except VenueError Connector :=
  match Limiter.new config.rateLimit (.ofSeconds config.rateWindowSeconds.toNat) with
  | .ok l => .ok ⟨config, gateway, .new l, .free, [], [], 0, timeOfDay⟩
  | .error e => .error e.toVenueError

/-! ## Connecting -/

/-- How connecting goes on: to another point to wait at, or to its result. -/
inductive Dialled where
  | waiting (d : Dial)
  | done (result : Except VenueError Unit)

def leaveDial (c : Connector) (id : Nat) : Connector := { c with dialLock := c.dialLock.leave id }

/-- A caller goes on being connected; none while it waits. A connection that is there is used. -/
def goDial (c : Connector) (now id : Nat) : Dial → Option (Dialled × Connector)
  | .locking =>
    if c.dialLock.heldBy id then
      if c.gateway.isConnected then some (.done (.ok ()), c.leaveDial id)
      else some (.waiting .pacing, { c with gate := c.gate.join id })
    else none
  | .pacing =>
    (c.gate.acquire? now id).map fun gate =>
      (.waiting (.dialling (now + c.gateway.behaviour.connectDelay)),
        { c with gate, gateway := c.gateway.beginConnect now })
  | .dialling due =>
    if due ≤ now then
      let (result, gateway) := c.gateway.finishConnect
      some (.done result, { c with gateway }.leaveDial id)
    else none

/-! ## Calls -/

/-- Starts a call and tells its number. -/
def call (c : Connector) (task : Task) : Nat × Connector :=
  (c.nextId,
    { c with
      calls := c.calls ++ [Call.mk c.nextId task (.connecting .locking)]
      dialLock := c.dialLock.join c.nextId
      nextId := c.nextId + 1 })

def result? (c : Connector) (id : Nat) : Option (Except VenueError (List HistoryBar)) :=
  match c.calls.find? (·.id = id) with
  | some ⟨_, _, .finished r⟩ => some r
  | _ => none

/-- Forgets a call that has finished. -/
def forgetCall (c : Connector) (id : Nat) : Connector :=
  { c with calls := c.calls.filter (·.id ≠ id) }

def setCall (c : Connector) (k : Call) : Connector :=
  { c with calls := c.calls.map fun l => if l.id = k.id then k else l }

/-- The connection is there. -/
def connectedCall (c : Connector) (k : Call) : Connector :=
  match k.task with
  | .connect => c.setCall { k with stage := .finished (.ok []) }
  | .fetch _ _ =>
    let c := c.setCall { k with stage := .pacing }
    { c with gate := c.gate.join k.id }

def historicalRequest (c : Connector) (now : Nat) (r : HistoryRequest) : HistoricalRequest :=
  ⟨r.end, .covering (r.span (c.timeOfDay now)), barSize r.interval, c.config.whatToShow,
    c.config.regularHours⟩

/-- The last bars, as many as are asked for. -/
def lastBars (limit : Option UInt32) (bars : List HistoryBar) : List HistoryBar :=
  match limit with
  | some n => bars.drop (bars.length - n.toNat)
  | none => bars

/-- Asks for history. -/
def askHistory (c : Connector) (now : Nat) (k : Call) : Connector :=
  match k.task with
  | .connect => c
  | .fetch contract request =>
    let (answer, gateway) :=
      c.gateway.requestHistory now contract (c.historicalRequest now request)
    let bars := answer.map (lastBars request.limit)
    { c with gateway }.setCall { k with stage := .finished bars }

/-- A call goes on; none while it waits. -/
def goCall (c : Connector) (now : Nat) (k : Call) : Option Connector :=
  match k.stage with
  | .connecting d =>
    (c.goDial now k.id d).map fun p =>
      match p.1 with
      | .waiting d => p.2.setCall { k with stage := .connecting d }
      | .done (.ok _) => p.2.connectedCall k
      | .done (.error e) => p.2.setCall { k with stage := .finished (.error e) }
  | .pacing => (c.gate.acquire? now k.id).map fun gate => { c with gate }.askHistory now k
  | .finished _ => none

/-! ## Streams -/

/-- The most tickers that wait for a consumer. -/
def queueCapacity (c : Connector) : Nat := max c.config.streamBuffer.toNat 1

/-- Starts a stream and tells its number. -/
def openStream (c : Connector) (contract : Contract) : Nat × Connector :=
  let s : Stream := ⟨c.nextId, contract, .new c.queueCapacity, .connecting .locking⟩
  (c.nextId,
    { c with
      streams := c.streams ++ [s]
      dialLock := c.dialLock.join c.nextId
      nextId := c.nextId + 1 })

def stream? (c : Connector) (id : Nat) : Option Stream := c.streams.find? (·.id = id)

def setStream (c : Connector) (s : Stream) : Connector :=
  { c with streams := c.streams.map fun t => if t.id = s.id then s else t }

def setStage (c : Connector) (s : Stream) (stage : Stage) : Connector :=
  c.setStream { s with stage }

/-- The consumer of a stream looks for a ticker. -/
def receive (c : Connector) (id : Nat) : Received Ticker × Connector :=
  match c.stream? id with
  | none => (.ended, c)
  | some s =>
    let (r, queue) := s.queue.receive
    (r, c.setStream { s with queue })

/-- The consumer of a stream goes. -/
def dropStream (c : Connector) (id : Nat) : Connector :=
  match c.stream? id with
  | none => c
  | some s => c.setStream { s with queue := s.queue.close }

def reconnectDelay (c : Connector) : Nat := c.config.reconnectDelayMillis.toNat * 1000000

/-- A session has ended. -/
def endSession (c : Connector) (s : Stream) (consumerGone : Bool) : Connector :=
  let c := c.setStage s (.cancelling consumerGone)
  { c with gate := c.gate.join s.id }

/-- The connection is there: events are received from now on. -/
def connectedStream (c : Connector) (s : Stream) : Connector :=
  let c := c.setStage s (.pacing c.gateway.subscribe)
  { c with gate := c.gate.join s.id }

def askMarketData (c : Connector) (now : Nat) (s : Stream) (events : Gateway.Subscription) :
    Connector :=
  match c.gateway.requestMarketData now s.contract with
  | (.ok _, gateway) => { c with gateway }.setStage s (.reading events)
  | (.error _, gateway) => { c with gateway }.endSession s false

/-- The next event; of its tickers those of the contract are for the consumer. -/
def readEvent (c : Connector) (s : Stream) (events : Gateway.Subscription) : Option Connector :=
  match c.gateway.hear events with
  | .item batch =>
    let tickers := batch.filter fun t => t.contract.key = s.contract.key
    some (c.setStage s (.sending tickers { events with position := events.position + 1 }))
  | .lagged position => some (c.setStage s (.reading { events with position }))
  | .ended => some (c.endSession s false)
  | .empty => none

/-- The end of the market data, and of the session. -/
def cancel (c : Connector) (now : Nat) (s : Stream) (consumerGone : Bool) : Connector :=
  let c := { c with gateway := c.gateway.cancelMarketData now s.contract }
  if consumerGone then c.setStream { s with stage := .ended, queue := s.queue.finish }
  else
    { c with gateway := c.gateway.disconnect now }.setStage s (.pausing (now + c.reconnectDelay))

/-- A stream goes on; none while it waits. -/
def goOn (c : Connector) (now : Nat) (s : Stream) : Option Connector :=
  match s.stage with
  | .connecting d =>
    (c.goDial now s.id d).map fun p =>
      match p.1 with
      | .waiting d => p.2.setStage s (.connecting d)
      | .done (.ok _) => p.2.connectedStream s
      | .done (.error _) => p.2.endSession s false
  | .pacing events =>
    (c.gate.acquire? now s.id).map fun gate => { c with gate }.askMarketData now s events
  | .reading events => c.readEvent s events
  | .sending [] events => some (c.setStage s (.reading events))
  | .sending (t :: rest) events =>
    if s.queue.closed then none
    else
      (s.queue.send? t).map fun queue => c.setStream { s with queue, stage := .sending rest events }
  | .cancelling gone =>
    (c.gate.acquire? now s.id).map fun gate => { c with gate }.cancel now s gone
  | .pausing due =>
    if due ≤ now then
      let c := c.setStage s (.connecting .locking)
      some { c with dialLock := c.dialLock.join s.id }
    else none
  | .ended => none

/-- A stream whose consumer has gone ends its session, or ends between two sessions. It looks for
that while it reads, sends or pauses. -/
def notice (c : Connector) (s : Stream) : Option Connector :=
  if s.queue.closed then
    match s.stage with
    | .reading _ => some (c.endSession s true)
    | .sending (_ :: _) _ => some (c.endSession s true)
    | .pausing _ => some (c.setStream { s with stage := .ended, queue := s.queue.finish })
    | _ => none
  else none

/-! ## Going on -/

def dialAlarm? : Dial → Option Nat
  | .dialling due => some due
  | _ => none

def callAlarm? (k : Call) : Option Nat :=
  match k.stage with
  | .connecting d => dialAlarm? d
  | _ => none

def streamAlarm? (s : Stream) : Option Nat :=
  match s.stage with
  | .connecting d => dialAlarm? d
  | .pausing due => some due
  | _ => none

/-- What may happen next in a connector. -/
inductive Move where
  | call (id : Nat)
  | notice (id : Nat)
  | stream (id : Nat)
  deriving DecidableEq, Repr

def step (now : Nat) (m : Move) (c : Connector) : Option Connector :=
  match m with
  | .call id => (c.calls.find? (·.id = id)).bind (c.goCall now)
  | .notice id => (c.stream? id).bind c.notice
  | .stream id => (c.stream? id).bind (c.goOn now)

def moves (c : Connector) : List Move :=
  c.calls.map (fun k => .call k.id) ++
    c.streams.flatMap fun s => [.notice s.id, .stream s.id]

def system : System Connector Move where
  tasks := moves
  step := step
  alarms c := c.gate.alarms ++ c.calls.filterMap callAlarm? ++ c.streams.filterMap streamAlarm?

end Connector
end Ibkr
end MarketFeed
