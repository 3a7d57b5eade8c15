import MarketFeed.CommandLine.Reader
import MarketFeed.Relay.Config

/-!
# MarketFeed.CommandLine.Invocation

The command line of the program.

* `Invocation` — what the program is asked to do, and where.
* `Invocation.read` — an invocation from arguments and the environment.
-/

namespace MarketFeed
namespace CommandLine

def programName : String := "feedhub"

def programVersion : String := "0.1.0"

def about : String :=
  "Market data ingestion: Binance history and trades into Postgres, optionally relayed over DTC"

inductive Command where
  /-- Polls history and streams trades until interrupted. -/
  | collect (symbols : List String) (intervals : List Interval) (live : List String)
      (pollSeconds : Nat) (lookback : UInt32) (batchSize : UInt64) (relay : Option RelayConfig)
  /-- Fetches history once for each symbol and interval. -/
  | backfill (symbols : List String) (intervals : List Interval) (lookback : UInt32)
  deriving DecidableEq, Repr

structure Invocation where
  databaseUrl : Option String
  /-- Everything is kept in memory. -/
  inMemory : Bool
  restBase : Option String
  wsBase : Option String
  command : Command
  deriving DecidableEq, Repr

/-! ## The options -/

def helpFlag : Flag := ⟨"help", some 'h', .nothing, .text, none, false⟩

def programFlags : List Flag :=
  [⟨"log-level", some 'l', .once, .text, none, false⟩,
    ⟨"database-url", none, .once, .text, some "DATABASE_URL", false⟩,
    ⟨"memory", none, .nothing, .text, none, false⟩,
    ⟨"binance-rest", none, .once, .text, some "BINANCE_REST_BASE", false⟩,
    ⟨"binance-ws", none, .once, .text, some "BINANCE_WS_BASE", false⟩,
    helpFlag,
    ⟨"version", some 'V', .nothing, .text, none, false⟩]

def symbolsFlag (required : Bool) : Flag := ⟨"symbols", some 's', .list, .text, none, required⟩

def intervalsFlag : Flag := ⟨"intervals", some 'i', .list, .interval, none, false⟩

def lookbackFlag : Flag := ⟨"lookback", none, .once, .bounded 32, none, false⟩

def collectFlags : List Flag :=
  [symbolsFlag false,
    intervalsFlag,
    ⟨"live", none, .list, .text, none, false⟩,
    ⟨"poll-secs", none, .once, .count, none, false⟩,
    lookbackFlag,
    ⟨"batch-size", none, .once, .count, none, false⟩,
    ⟨"dtc-host", none, .once, .text, some "DTC_HOST", false⟩,
    ⟨"dtc-port", none, .once, .bounded 16, some "DTC_PORT", false⟩,
    ⟨"dtc-user", none, .once, .text, some "DTC_USER", false⟩,
    ⟨"dtc-password", none, .once, .text, some "DTC_PASSWORD", false⟩,
    helpFlag]

def backfillFlags : List Flag := [symbolsFlag true, intervalsFlag, lookbackFlag, helpFlag]

def programGrammar : Grammar := ⟨programFlags, ["collect", "backfill", "help"]⟩

def collectGrammar : Grammar := ⟨collectFlags, []⟩

def backfillGrammar : Grammar := ⟨backfillFlags, []⟩

/-! ## What was given -/

namespace Given

/-- The number of an option, which was found to be one; the sign may be written. -/
def number (g : Given) (name : String) (default : Nat) : Nat :=
  match g.get? name with
  | none => default
  | some text =>
    match Text.integer 9223372036854775808 (Content.limit 64) text.toList with
    | .ok n => n.toNat
    | .error _ => default

/-- The intervals of an option; one minute if it was not given. -/
def intervals (g : Given) : List Interval :=
  if g.has "intervals" then
    (g.all "intervals").filterMap fun text => (Interval.parse text).toOption
  else [.minute 1]

def lookback (g : Given) : UInt32 := .ofNat (g.number "lookback" 500)

/-- The relay is off unless its host is given. -/
def relay? (g : Given) : Option RelayConfig :=
  (g.get? "dtc-host").map fun host =>
    { RelayConfig.default with
      host
      port := .ofNat (g.number "dtc-port" RelayConfig.default.port.toNat)
      username := (g.get? "dtc-user").getD ""
      password := (g.get? "dtc-password").getD "" }

def collect (g : Given) : Command :=
  .collect (g.all "symbols") g.intervals (g.all "live") (g.number "poll-secs" 60) g.lookback
    (.ofNat (g.number "batch-size" 500)) g.relay?

def backfill (g : Given) : Command := .backfill (g.all "symbols") g.intervals g.lookback

end Given

namespace Command

/-- Help on a command, or on one of its own. -/
def readHelp : List String → List String → Stop
  | _, [] => .help
  | commands, a :: rest =>
    if commands.contains a then readHelp (if a = "help" then commands else []) rest
    else .usage (.unknownCommand a)

/-- A command from its name and its arguments. -/
def read (environment : List (String × String)) (name : String) (arguments : List String) :
    Except Stop Command :=
  let given (r : Grammar) : Except Stop Given :=
    (r.scan arguments false .empty).bind fun p => r.complete environment p.1
  if name = "collect" then (given collectGrammar).map Given.collect
  else if name = "backfill" then (given backfillGrammar).map Given.backfill
  else .error (readHelp programGrammar.commands arguments)

end Command

namespace Invocation

def ofGiven (g : Given) (command : Command) : Invocation :=
  ⟨g.get? "database-url", g.has "memory", g.get? "binance-rest", g.get? "binance-ws", command⟩

/-- Options without a command are a fault. The options in front of a command are looked at after it,
the last of them at least. -/
def read (environment : List (String × String)) (arguments : List String) :
    Except Stop Invocation :=
  (programGrammar.scan arguments false .empty).bind fun (g, command?) =>
    match command? with
    | none =>
      (programGrammar.complete environment g).bind fun g =>
        .error (if g.values.isEmpty then .silence else .usage (.missingCommand programName))
    | some (name, rest) =>
      (Command.read environment name rest).bind fun command =>
        (programGrammar.complete environment g).map fun g => ofGiven g command

end Invocation
end CommandLine
end MarketFeed
