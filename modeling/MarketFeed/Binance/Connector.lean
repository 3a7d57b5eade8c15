import MarketFeed.Binance.Config
import MarketFeed.Binance.Feed
import MarketFeed.Binance.Fetch
import MarketFeed.Binance.Trade
import MarketFeed.Pacing.Gate
import MarketFeed.Tasks.Channel
import MarketFeed.Tasks.System

/-!
# MarketFeed.Binance.Connector

The connector to Binance. All its fetches and streams share one limiter: every request and every
opening of a stream takes a grant of its own.

* `Stage`, `Stream` — a stream, with the point at which it may have to wait.
* `Connector` — the fetches and streams under way, and what they did at the venue.
* `Connector.goOn` — a stream goes on to the next such point.
* `Connector.notice` — a stream learns that its consumer has gone, wherever it looks for that.

A stream that fails or ends is opened again after a delay, for ever; only its consumer ends it.
-/

namespace MarketFeed
namespace Binance

/-- Where a stream may have to wait. -/
inductive Stage where
  /-- For a grant to open the feed. -/
  | pacing
  /-- For the feed to open, or to fail to. -/
  | opening (due : Nat) (frames : Option Frames)
  /-- For the next item, at least until `resume`. -/
  | reading (frames : Frames) (next resume : Nat)
  /-- For room in the queue to the consumer. -/
  | sending (trade : Trade) (frames : Frames) (next : Nat)
  /-- Until the feed is opened again. -/
  | pausing (due : Nat)
  | ended

structure Stream where
  id : Nat
  symbol : String
  queue : Channel Trade
  stage : Stage

/-- A fetch, with its result once there is one. -/
structure Fetch where
  id : Nat
  symbol : String
  request : HistoryRequest
  result : Option (Except VenueError (List Kline))

/-- Who waits for a grant, or for a look at the limiter. -/
inductive Caller where
  | fetch (id : Nat)
  | stream (id : Nat)
  | observer
  deriving DecidableEq, Repr

/-- What was done at the venue. -/
inductive VenueCall where
  | request (symbol : String)
  | opened (symbol : String)
  deriving DecidableEq, Repr

structure Connector where
  config : Config
  gate : Gate Caller
  server : Http.Server
  feed : Feed
  /-- The number of openings so far. -/
  openings : Nat
  streams : List Stream
  fetches : List Fetch
  nextId : Nat
  /-- The calls so far, with their times. -/
  calls : List (Nat × VenueCall)
  /-- The last count of grants, until it is taken. -/
  count : Option Nat

namespace Connector

def new (config : Config) (server : Http.Server) (feed : Feed) : Except VenueError Connector :=
  match Limiter.new config.rateLimit (.ofSeconds config.rateWindowSeconds.toNat) with
  | .ok l => .ok ⟨config, .new l, server, feed, 0, [], [], 0, [], none⟩
  | .error e => .error e.toVenueError

def log (c : Connector) (now : Nat) (call : VenueCall) : Connector :=
  { c with calls := c.calls ++ [(now, call)] }

/-! ## Fetches -/

/-- Starts a fetch and tells its number. -/
def fetch (c : Connector) (symbol : String) (request : HistoryRequest) : Nat × Connector :=
  (c.nextId,
    { c with
      fetches := c.fetches ++ [Fetch.mk c.nextId symbol request none]
      gate := c.gate.join (.fetch c.nextId)
      nextId := c.nextId + 1 })

def fetched? (c : Connector) (id : Nat) : Option (Except VenueError (List Kline)) :=
  (c.fetches.find? (·.id = id)).bind Fetch.result

/-- Forgets a fetch that has its result. -/
def forgetFetch (c : Connector) (id : Nat) : Connector :=
  { c with fetches := c.fetches.filter (·.id ≠ id) }

/-- The request of a fetch. -/
def request (c : Connector) (now : Nat) (f : Fetch) : Connector :=
  let parameters := klinesParameters f.symbol f.request
  let (answer, server) := c.server.get (klinesUrl c.config.restBase) parameters
  let done := { f with result := some (klinesOf answer) }
  { c.log now (.request f.symbol) with
    server
    fetches := c.fetches.map fun g => if g.id = f.id then done else g }

/-- A fetch goes on when it gets its grant. -/
def goFetch (c : Connector) (now : Nat) (f : Fetch) : Option Connector :=
  (c.gate.acquire? now (.fetch f.id)).map fun gate => { c with gate }.request now f

/-! ## Streams -/

/-- The most trades that wait for a consumer. -/
def queueCapacity (c : Connector) : Nat := max c.config.streamBuffer.toNat 1

/-- Starts a stream and tells its number. -/
def openStream (c : Connector) (symbol : String) : Nat × Connector :=
  let s : Stream := ⟨c.nextId, Text.upperText symbol, .new c.queueCapacity, .pacing⟩
  (c.nextId,
    { c with
      streams := c.streams ++ [s]
      gate := c.gate.join (.stream c.nextId)
      nextId := c.nextId + 1 })

def stream? (c : Connector) (id : Nat) : Option Stream := c.streams.find? (·.id = id)

def setStream (c : Connector) (s : Stream) : Connector :=
  { c with streams := c.streams.map fun t => if t.id = s.id then s else t }

/-- The consumer of a stream looks for a trade. -/
def receive (c : Connector) (id : Nat) : Received Trade × Connector :=
  match c.stream? id with
  | none => (.ended, c)
  | some s =>
    let (r, queue) := s.queue.receive
    (r, c.setStream { s with queue })

/-- The consumer of a stream goes. -/
def dropStream (c : Connector) (id : Nat) : Connector :=
  match c.stream? id with
  | none => c
  | some s => c.setStream { s with queue := s.queue.close }

def reconnectDelay (c : Connector) : Nat := c.config.reconnectDelayMillis.toNat * 1000000

/-- A connection has ended, or there was none. -/
def disconnected (c : Connector) (now : Nat) (s : Stream) : Connector :=
  c.setStream { s with stage := .pausing (now + c.reconnectDelay) }

/-- Opens the feed. -/
def openFeed (c : Connector) (now : Nat) (s : Stream) : Connector :=
  let o := c.feed.opening c.openings s.symbol
  { c.log now (.opened s.symbol) with openings := c.openings + 1 }.setStream
    { s with stage := .opening (now + o.delay) o.frames }

/-- The next item of a connection. A frame that cannot be read ends the connection as a failure
does; one that carries no trade is passed over. -/
def readItem (c : Connector) (now : Nat) (s : Stream) (frames : Frames) (next : Nat) :
    Option Connector :=
  match frames.item next with
  | none => if frames.closes then some (c.disconnected now s) else none
  | some .failure => some (c.disconnected now s)
  | some (.pause length) =>
    some (c.setStream { s with stage := .reading frames (next + 1) (now + length) })
  | some (.text frame) =>
    match Trade.ofFrame frame with
    | .error _ => some (c.disconnected now s)
    | .ok none => some (c.setStream { s with stage := .reading frames (next + 1) now })
    | .ok (some trade) => some (c.setStream { s with stage := .sending trade frames (next + 1) })

/-- A stream goes on; none while it waits. -/
def goOn (c : Connector) (now : Nat) (s : Stream) : Option Connector :=
  match s.stage with
  | .pacing => (c.gate.acquire? now (.stream s.id)).map fun gate => { c with gate }.openFeed now s
  | .opening due frames =>
    if due ≤ now then
      match frames with
      | some frames => some (c.setStream { s with stage := .reading frames 0 now })
      | none => some (c.disconnected now s)
    else none
  | .reading frames next resume => if resume ≤ now then c.readItem now s frames next else none
  | .sending trade frames next =>
    if s.queue.closed then none
    else
      (s.queue.send? trade).map fun queue =>
        c.setStream { s with queue, stage := .reading frames next now }
  | .pausing due =>
    if due ≤ now then
      let c := c.setStream { s with stage := .pacing }
      some { c with gate := c.gate.join (.stream s.id) }
    else none
  | .ended => none

/-- Whether a stream looks for its consumer where it waits. It does not while the feed opens. -/
def looksForConsumer : Stage → Bool
  | .pacing | .reading .. | .sending .. | .pausing _ => true
  | .opening .. | .ended => false

/-- A stream whose consumer has gone ends. -/
def notice (c : Connector) (s : Stream) : Option Connector :=
  if s.queue.closed && looksForConsumer s.stage then
    let c := c.setStream { s with stage := .ended, queue := s.queue.finish }
    some { c with gate := c.gate.leave (.stream s.id) }
  else none

/-! ## The limiter -/

/-- Asks for the number of grants in the window. -/
def observe (c : Connector) : Connector := { c with gate := c.gate.join .observer }

def look (c : Connector) (now : Nat) : Option Connector :=
  (c.gate.count? now .observer).map fun (n, gate) => { c with gate, count := some n }

/-- The last count, which is forgotten at once. -/
def takeCount (c : Connector) : Option Nat × Connector := (c.count, { c with count := none })

/-! ## Going on -/

/-- The times that streams wait for. -/
def alarm? (s : Stream) : Option Nat :=
  match s.stage with
  | .opening due _ => some due
  | .reading _ _ resume => some resume
  | .pausing due => some due
  | _ => none

/-- What may happen next in a connector. -/
inductive Move where
  | notice (id : Nat)
  | stream (id : Nat)
  | fetch (id : Nat)
  | look
  deriving DecidableEq, Repr

def step (now : Nat) (m : Move) (c : Connector) : Option Connector :=
  match m with
  | .notice id => (c.stream? id).bind c.notice
  | .stream id => (c.stream? id).bind (c.goOn now)
  | .fetch id => (c.fetches.find? (·.id = id)).bind (c.goFetch now)
  | .look => c.look now

def moves (c : Connector) : List Move :=
  c.streams.flatMap (fun s => [.notice s.id, .stream s.id]) ++
    c.fetches.map (fun f => .fetch f.id) ++ [.look]

def system : System Connector Move where
  tasks := moves
  step := step
  alarms c := c.gate.alarms ++ c.streams.filterMap alarm?

end Connector
end Binance
end MarketFeed
