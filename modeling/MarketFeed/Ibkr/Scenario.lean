import MarketFeed.Ibkr.Connector

/-!
# MarketFeed.Ibkr.Scenario

A connector and its gateway on a clock, and what is seen after each command.

* `Command`, `Report` — what is done, and what is seen.
* `Scenario.run` — the reports of some commands.
-/

namespace MarketFeed
namespace Ibkr

/-- Streams are numbered in the order in which they were started. -/
inductive Command where
  | wait (length : Nat)
  | connect
  /-- Two calls at once. -/
  | connectTwice
  | fetch (contract : Contract) (request : HistoryRequest)
  | stream (contract : Contract)
  | publish (batches : List (List Ticker))
  | endEvents
  | loseConnection
  | receive (stream timeout : Nat)
  | tryReceive (stream : Nat)
  | drain (stream : Nat)
  | drop (stream : Nat)

/-- What a command gives. -/
inductive Got where
  | nothing
  | connected (result : Except VenueError Unit)
  /-- Whether each of two calls succeeded. -/
  | connectedTwice (first second : Bool)
  | bars (result : Except VenueError (List HistoryBar))
  | started
  | received (r : Received Ticker)
  | timeout
  | tickers (l : List Ticker)
  | dropped

/-- The time after a command, what it gave, and the calls since the last report. -/
structure Report where
  now : Nat
  got : Got
  calls : List (Nat × GatewayCall)

/-- The connector on its clock, its streams, each with whether its consumer is there, and the
number of calls that were reported. -/
structure Scenario where
  timed : Timed Connector
  streams : List (Nat × Bool)
  reported : Nat

namespace Connector

def isReady (id : Nat) (c : Connector) : Bool :=
  match c.stream? id with
  | some s => s.queue.isReady
  | none => true

def isDone (id : Nat) (c : Connector) : Bool := (c.result? id).isSome

end Connector

namespace Scenario

def new (c : Connector) : Scenario := ⟨⟨0, c⟩, [], 0⟩

def setWorld (s : Scenario) (c : Connector) : Scenario :=
  { s with timed := { s.timed with world := c } }

/-- Changes the gateway at once. -/
def onGateway (s : Scenario) (f : Gateway → Gateway) : Scenario :=
  s.setWorld { s.timed.world with gateway := f s.timed.world.gateway }

def start (s : Scenario) (task : Task) : Nat × Scenario :=
  let (id, c) := s.timed.world.call task
  (id, s.setWorld c)

/-- Waits for a call. -/
def join (s : Scenario) (id : Nat) : Except VenueError (List HistoryBar) × Scenario :=
  let s := { s with timed := Connector.system.await (Connector.isDone id) s.timed }
  ((s.timed.world.result? id).getD (.error .notConnected), s.setWorld (s.timed.world.forgetCall id))

def callAndWait (s : Scenario) (task : Task) : Except VenueError (List HistoryBar) × Scenario :=
  let (id, s) := s.start task
  s.join id

def succeeded : Except VenueError (List HistoryBar) → Bool
  | .ok _ => true
  | .error _ => false

/-- The stream of a number, while its consumer is there. -/
def present? (s : Scenario) (n : Nat) : Option Nat :=
  match s.streams[n]? with
  | some (id, true) => some id
  | _ => none

/-- Takes what the queue of a stream holds. -/
def take (s : Scenario) (id : Nat) : Received Ticker × Scenario :=
  let (r, c) := s.timed.world.receive id
  (r, s.setWorld c)

/-- Takes tickers until there is none, letting everything come to rest after each. -/
def drain (id : Nat) : Nat → Scenario → List Ticker × Scenario
  | 0, s => ([], s)
  | fuel + 1, s =>
    match s.take id with
    | (.item t, s) =>
      let (rest, s) := drain id fuel { s with timed := Connector.system.settle s.timed }
      (t :: rest, s)
    | (_, s) => ([], s)

/-- Does something with a stream whose consumer is there. -/
def onStream (s : Scenario) (n : Nat) (f : Nat → Got × Scenario) : Got × Scenario :=
  match s.present? n with
  | some id => f id
  | none => (.dropped, s)

def perform (s : Scenario) : Command → Got × Scenario
  | .wait length =>
    (.nothing, { s with timed := Connector.system.advance (s.timed.now + length) s.timed })
  | .connect =>
    let (r, s) := s.callAndWait .connect
    (.connected (r.map fun _ => ()), s)
  | .connectTwice =>
    let (first, s) := s.start .connect
    let (second, s) := s.start .connect
    let (a, s) := s.join first
    let (b, s) := s.join second
    (.connectedTwice (succeeded a) (succeeded b), s)
  | .fetch contract request =>
    let (r, s) := s.callAndWait (.fetch contract request)
    (.bars r, s)
  | .stream contract =>
    let (id, c) := s.timed.world.openStream contract
    (.started, { s.setWorld c with streams := s.streams ++ [(id, true)] })
  | .publish batches => (.nothing, s.onGateway fun g => batches.foldl Gateway.publish g)
  | .endEvents => (.nothing, s.onGateway Gateway.endEvents)
  | .loseConnection => (.nothing, s.onGateway fun g => { g with isConnected := false })
  | .receive n timeout =>
    s.onStream n fun id =>
      let deadline := s.timed.now + timeout
      let t := Connector.system.awaitUntil (Connector.isReady id) deadline s.timed
      match { s with timed := t }.take id with
      | (.empty, s) => (.timeout, s)
      | (r, s) => (.received r, s)
  | .tryReceive n =>
    s.onStream n fun id =>
      let (r, s) := s.take id
      (.received r, s)
  | .drain n =>
    s.onStream n fun id =>
      let (l, s) := s.drain id patience
      (.tickers l, s)
  | .drop n =>
    s.onStream n fun id =>
      (.dropped, { s.setWorld (s.timed.world.dropStream id) with
        streams := s.streams.set n (id, false) })

def report (s : Scenario) (got : Got) : Report × Scenario :=
  let t := Connector.system.settle s.timed
  let calls := t.world.gateway.calls
  (⟨t.now, got, calls.drop s.reported⟩, { s with timed := t, reported := calls.length })

def run (s : Scenario) : List Command → List Report
  | [] => []
  | c :: rest =>
    let (got, s) := s.perform c
    let (r, s) := s.report got
    r :: run s rest

end Scenario
end Ibkr
end MarketFeed
