import MarketFeed.Binance.Connector

/-!
# MarketFeed.Binance.Scenario

A connector on a clock with one consumer of one stream, and what is seen after each of its
commands; and fetches one after another.

* `Command`, `Report` — what is done, and what is seen.
* `Scenario.run` — the reports of some commands.
* `fetchAll` — the results of some fetches, with the grants in the window after each.
-/

namespace MarketFeed
namespace Binance

inductive Command where
  | wait (length : Nat)
  | inWindow
  | receive (timeout : Nat)
  | tryReceive
  | drain
  | drop
  deriving DecidableEq, Repr

/-- What a command gives. -/
inductive Got where
  | nothing
  | count (n : Nat)
  | received (r : Received Trade)
  | timeout
  | trades (l : List Trade)
  | dropped
  deriving DecidableEq, Repr

/-- The time after a command, what it gave, and the openings since the last report. -/
structure Report where
  now : Nat
  got : Got
  openings : List (Nat × String)
  deriving DecidableEq, Repr

/-- The connector on its clock, its stream, whether the consumer is still there, and the number
of calls that were reported. -/
structure Scenario where
  timed : Timed Connector
  stream : Nat
  dropped : Bool
  reported : Nat

namespace Connector

def isReady (id : Nat) (c : Connector) : Bool :=
  match c.stream? id with
  | some s => s.queue.isReady
  | none => true

/-- The openings among some calls. -/
def openings? (l : List (Nat × VenueCall)) : List (Nat × String) :=
  l.filterMap fun p =>
    match p.2 with
    | .opened symbol => some (p.1, symbol)
    | .request _ => none

end Connector

namespace Scenario

def start (c : Connector) (symbol : String) : Scenario :=
  let (id, c) := c.openStream symbol
  ⟨⟨0, c⟩, id, false, 0⟩

/-- Takes what the queue holds. -/
def take (s : Scenario) : Received Trade × Scenario :=
  let (r, c) := s.timed.world.receive s.stream
  (r, { s with timed := { s.timed with world := c } })

/-- Takes trades until there is none, letting everything come to rest after each. -/
def drain : Nat → Scenario → List Trade × Scenario
  | 0, s => ([], s)
  | fuel + 1, s =>
    match s.take with
    | (.item t, s) =>
      let (rest, s) := drain fuel { s with timed := Connector.system.settle s.timed }
      (t :: rest, s)
    | (_, s) => ([], s)

def perform (s : Scenario) : Command → Got × Scenario
  | .wait length =>
    (.nothing, { s with timed := Connector.system.advance (s.timed.now + length) s.timed })
  | .inWindow =>
    let t := Connector.system.await (fun c => c.count.isSome) (s.timed.update Connector.observe)
    let (n, c) := t.world.takeCount
    (.count (n.getD 0), { s with timed := { t with world := c } })
  | .receive timeout =>
    if s.dropped then (.dropped, s)
    else
      let deadline := s.timed.now + timeout
      let t := Connector.system.awaitUntil (Connector.isReady s.stream) deadline s.timed
      match { s with timed := t }.take with
      | (.empty, s) => (.timeout, s)
      | (r, s) => (.received r, s)
  | .tryReceive =>
    if s.dropped then (.dropped, s)
    else
      let (r, s) := s.take
      (.received r, s)
  | .drain =>
    if s.dropped then (.dropped, s)
    else
      let (l, s) := s.drain patience
      (.trades l, s)
  | .drop =>
    (.dropped,
      { s with timed := s.timed.update fun c => c.dropStream s.stream, dropped := true })

def report (s : Scenario) (got : Got) : Report × Scenario :=
  let t := Connector.system.settle s.timed
  let calls := t.world.calls
  (⟨t.now, got, Connector.openings? (calls.drop s.reported)⟩,
    { s with timed := t, reported := calls.length })

def performAll (s : Scenario) : List Command → List Report
  | [] => []
  | c :: rest =>
    let (got, s) := s.perform c
    let (r, s) := s.report got
    r :: performAll s rest

/-- The first report is the one after the stream was started. -/
def run (s : Scenario) (commands : List Command) : List Report :=
  let (r, s) := s.report .nothing
  r :: s.performAll commands

end Scenario

/-- The fetches one after another: each result, and the grants in the window after it. -/
def fetchAll (t : Timed Connector) :
    List (String × HistoryRequest) →
      List (Except VenueError (List Kline) × Nat) × Timed Connector
  | [] => ([], t)
  | (symbol, request) :: rest =>
    let (id, c) := t.world.fetch symbol request
    let t := Connector.system.await (fun c => (c.fetched? id).isSome) { t with world := c }
    let result := (t.world.fetched? id).getD (.error .notConnected)
    let t := t.update fun c => (c.forgetFetch id).observe
    let t := Connector.system.await (fun c => c.count.isSome) t
    let (n, c) := t.world.takeCount
    let (results, t) := fetchAll { t with world := c } rest
    ((result, n.getD 0) :: results, t)

end Binance
end MarketFeed
