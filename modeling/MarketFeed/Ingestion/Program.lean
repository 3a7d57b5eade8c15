import MarketFeed.Collector.Loop
import MarketFeed.CommandLine.Invocation
import MarketFeed.Ingestion.Services

/-!
# MarketFeed.Ingestion.Program

The program: from arguments and environment to what it prints and what the servers see.

* `Outcome` — the exit status, and what was printed.
* `Interrupt` — when the user stops the program.
* `backfill`, `collect` — the two commands.
* `run` — the whole program.
-/

namespace MarketFeed
namespace Ingestion

open Collector (Failure)
open CommandLine (Invocation)

structure Outcome where
  exit : UInt32
  /-- What is printed, line by line. -/
  lines : List String
  /-- What is printed as an error. -/
  error : Option String
  deriving DecidableEq, Repr

/-- What the servers have seen in the end. -/
structure Trace where
  requests : List String
  streamTargets : List String
  relay : List (List Relay.Seen)
  statements : List (Store.Statement × Bool)

namespace Trace

def nothing : Trace := ⟨[], [], [], []⟩

def of (servers : Servers) (s : Services) : Trace :=
  ⟨s.connector.server.requests, s.streamTargets servers.streams, s.relaySeen, s.backend.statements⟩

end Trace

/-- The user interrupts the program a while after the servers have seen that much. -/
structure Interrupt where
  requests : Nat
  /-- A stream has to have been opened. -/
  stream : Bool
  relayEvents : Nat
  delay : Nat
  deriving DecidableEq, Repr

/-- The collector of the program. -/
abbrev Session := Collector.World Services String

/-- Whether the servers have seen enough. -/
def Interrupt.isDue (i : Interrupt) (server : Binance.StreamServer) (w : Session) : Bool :=
  i.requests ≤ w.around.connector.server.requests.length &&
    (!i.stream || !(w.around.streamTargets server).isEmpty) &&
    i.relayEvents ≤ w.around.relayEvents

def system (relayed : Bool) :
    System Session (Collector.World.Move ⊕ (Binance.Connector.Move ⊕ Relay.Network.Actor)) :=
  Collector.World.system Collector.binance (Services.surroundings relayed) Services.system

/-- All symbols, in capital letters, with all intervals. -/
def pairs (symbols : List String) (intervals : List Interval) : List (String × Interval) :=
  symbols.flatMap fun s => intervals.map fun i => (Text.upperText s, i)

/-! ## The commands -/

def backfillLine (symbol : String) (interval : Interval) (written : Nat) : String :=
  symbol ++ " " ++ interval.code ++ ": " ++ toString written ++ " bars"

/-- One pass over the history of each pair, up to the first that fails: a line for every pass that
went well, and why one failed. -/
def backfill (lookback : UInt32) :
    List (String × Interval) → Timed Session → (List String × Option Failure) × Timed Session
  | [], t => (([], none), t)
  | (symbol, interval) :: rest, t =>
    match Collector.World.pass Collector.binance (Services.surroundings false) Services.system t
      symbol (.latest interval lookback) with
    | (.error e, t) => (([], some e), t)
    | (.ok written, t) =>
      let ((lines, failure), t) := backfill lookback rest t
      ((backfillLine symbol interval written :: lines, failure), t)

/-- Lets the collector run until the user interrupts it. -/
def awaitInterrupt (relayed : Bool) (server : Binance.StreamServer) (i : Interrupt)
    (t : Timed Session) : Timed Session :=
  let t := (system relayed).await (i.isDue server) t
  ((system relayed).advance (t.now + i.delay) t).update Collector.World.stop

/-- Logs off from the relay, and lets its server see that. -/
def closeRelay (t : Timed Session) : Timed Session :=
  let (id, client) := t.world.around.relay.client.call .close
  let t := t.update fun w => w.setAround (w.around.setClient client)
  let t := (system true).await (fun w => (w.around.relay.client.result? id).isSome) t
  (system true).settle t

/-- Runs all loops until the user interrupts them and the last one has ended. -/
def collect (relayed : Bool) (server : Binance.StreamServer) (interrupt : Option Interrupt)
    (t : Timed Session) : Timed Session :=
  let t := t.update fun w => w.start.2
  let t := match interrupt with
    | some i => awaitInterrupt relayed server i t
    | none => t
  let t := (system relayed).await (fun w => w.runs.isEmpty) t
  if relayed then closeRelay t else t

/-! ## The program -/

def connectorConfig (i : Invocation) : Binance.Config :=
  { Binance.Config.default with
    restBase := i.restBase.getD Binance.Config.default.restBase
    wsBase := i.wsBase.getD Binance.Config.default.wsBase }

def collectorConfig (symbols : List String) (intervals : List Interval) (live : List String)
    (pollSeconds : Nat) (lookback : UInt32) (batchSize : UInt64) : Collector.Config String :=
  { (Collector.Config.default : Collector.Config String) with
    backfill := pairs symbols intervals
    live
    pollInterval := .ofSeconds pollSeconds
    lookback
    tickBatchSize := batchSize }

/-- The client of the relay, and the server that it finds. -/
def relayOf (servers : Servers) (config : RelayConfig) : Relay.Network :=
  let network := Relay.Network.new config servers.relay
  { network with
    client := { network.client with listening := config.port = servers.relayPort } }

/-- A command on a connector and a backend: what it prints, why it failed if it did, and the
services in the end. -/
def perform (servers : Servers) (interrupt : Option Interrupt) (connector : Binance.Connector)
    (backend : Backend) : CommandLine.Command → (List String × Option String) × Services
  | .collect symbols intervals live pollSeconds lookback batchSize relay =>
    let config := collectorConfig symbols intervals live pollSeconds lookback batchSize
    let services : Services := ⟨connector, backend, relayOf servers (relay.getD .default)⟩
    if config.backfill.isEmpty && config.live.isEmpty then
      (([], some "nothing to collect: pass --symbols and/or --live"), services)
    else
      let t := collect relay.isSome servers.streams interrupt ⟨0, .new config services⟩
      (([], none), t.world.around)
  | .backfill symbols intervals lookback =>
    let services : Services := ⟨connector, backend, relayOf servers .default⟩
    let ((lines, failure), t) :=
      backfill lookback (pairs symbols intervals) ⟨0, .new .default services⟩
    ((lines, failure.map Failure.message), t.world.around)

def summary (backend : Backend) : String :=
  let (bars, ticks) := backend.counts
  "Collected " ++ toString bars ++ " bars and " ++ toString ticks ++ " ticks in memory"

def succeed (lines : List String) : Outcome := ⟨0, lines, none⟩

def fail (lines : List String) (message : String) : Outcome :=
  ⟨1, lines, some ("Error: " ++ message)⟩

/-- A command, with a summary in the end if everything is kept in memory. -/
def performIn (servers : Servers) (interrupt : Option Interrupt) (connector : Binance.Connector)
    (backend : Backend) (inMemory : Bool) (command : CommandLine.Command) : Outcome × Trace :=
  let ((lines, failure), services) := perform servers interrupt connector backend command
  let outcome := match failure with
    | some message => fail lines message
    | none => succeed (lines ++ if inMemory then [summary services.backend] else [])
  (outcome, .of servers services)

/-- What an invocation comes to. -/
def execute (servers : Servers) (interrupt : Option Interrupt) (i : Invocation) :
    Outcome × Trace :=
  let config := connectorConfig i
  match Binance.Connector.new config servers.http (servers.streams.feed config.wsBase) with
  | .error e => (fail [] e.message, .nothing)
  | .ok connector =>
    if i.inMemory then performIn servers interrupt connector (.memory .empty) true i.command
    else
      match i.databaseUrl with
      | none => (fail [] "DATABASE_URL is required unless --memory is given", .nothing)
      | some url =>
        match Backend.connect servers.databaseAddress url servers.database with
        | (.error e, backend) =>
          (fail [] e.message, { Trace.nothing with statements := backend.statements })
        | (.ok (), backend) => performIn servers interrupt connector backend false i.command

/-- The program with its arguments. -/
def run (servers : Servers) (interrupt : Option Interrupt) (environment : List (String × String))
    (arguments : List String) : Outcome × Trace :=
  match Invocation.read environment arguments with
  | .ok i => execute servers interrupt i
  | .error .version =>
    (succeed [CommandLine.programName ++ " " ++ CommandLine.programVersion], .nothing)
  | .error .help => (succeed [CommandLine.about], .nothing)
  | .error .silence => (⟨2, [], some CommandLine.about⟩, .nothing)
  | .error (.usage e) => (⟨2, [], some ("error: " ++ e.message)⟩, .nothing)

end Ingestion
end MarketFeed
