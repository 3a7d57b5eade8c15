import MarketFeed.Market.Bar

/-!
# MarketFeed.Store.Statement

The statements that are sent to a PostgreSQL server.

* `Cell`, `Upsert` — a row to be inserted, or to replace the one with the same key.
* `Upsert.ofBar`, `Upsert.ofTick` — the rows of the two tables.
* `Statement` — all statements, with their SQL.
-/

namespace MarketFeed
namespace Store

/-- A value bound to a column. -/
inductive Cell where
  | null
  | text (s : String)
  | numeric (d : Decimal)
  /-- A moment in microseconds since the epoch. -/
  | timestamp (micros : Int)
  | bigint (n : Int)
  | json (members : Json.Members)

/-- A row for a table: the values of its columns, and the columns of its key. The other columns are
replaced where the key is there already. -/
structure Upsert where
  table : String
  row : List (String × Cell)
  conflict : List String

/-- Microseconds since the epoch as the server keeps them. It counts from 1 January 2000, and what
is left of a microsecond is cut towards that moment. -/
def serverMicros (t : Instant) : Int :=
  let start : Int := 946684800
  let nanos := (t.unixSeconds - start) * 1000000000 + t.nanos
  start * 1000000 + nanos.tdiv 1000

def Cell.ofOption {α : Type} (f : α → Cell) : Option α → Cell
  | none => .null
  | some a => f a

/-- The row of a bar. A count of trades beyond the signed integers wraps around. -/
def Upsert.ofBar (b : Bar) : Upsert :=
  { table := "bars"
    row := [("exchange", .text b.exchange), ("symbol", .text b.symbol),
      ("interval", .text b.interval), ("timestamp", .timestamp (serverMicros b.timestamp)),
      ("open", .numeric b.open), ("high", .numeric b.high), ("low", .numeric b.low),
      ("close", .numeric b.close), ("volume", .numeric b.volume),
      ("quote_volume", .ofOption .numeric b.quoteVolume),
      ("trade_count", .ofOption (fun n => .bigint n.toInt64.toInt) b.tradeCount),
      ("extra", .json b.extra)]
    conflict := ["exchange", "symbol", "interval", "timestamp"] }

def Upsert.ofTick (t : Tick) : Upsert :=
  { table := "ticks"
    row := [("exchange", .text t.exchange), ("symbol", .text t.symbol), ("source", .text t.source),
      ("timestamp", .timestamp (serverMicros t.timestamp)), ("price", .numeric t.price),
      ("size", .numeric t.size), ("side", .ofOption (fun s => .text s.name) t.side),
      ("extra", .json t.extra)]
    conflict := ["exchange", "symbol", "source", "timestamp"] }

namespace Upsert

def columns (u : Upsert) : List String := u.row.map (·.1)

/-- The columns that are replaced. -/
def replaced (u : Upsert) : List String := u.columns.filter fun c => !u.conflict.contains c

def assignment (column : String) : String := column ++ " = EXCLUDED." ++ column

/-- The statement on one line, with a numbered place for every value. -/
def sql (u : Upsert) : String :=
  let list (l : List String) : String := ", ".intercalate l
  let places := (List.range u.row.length).map fun i => "$" ++ toString (i + 1)
  "INSERT INTO " ++ u.table ++ " (" ++ list u.columns ++ ") VALUES (" ++ list places ++
    ") ON CONFLICT (" ++ list u.conflict ++ ") DO UPDATE SET " ++ list (u.replaced.map assignment)

end Upsert

/-- The two tables and an index, on one line. -/
def schema : String :=
  " ".intercalate
    ["-- OHLCV bars, one row per (exchange, symbol, interval, open time).",
      "CREATE TABLE IF NOT EXISTS bars (",
      "exchange TEXT NOT NULL, symbol TEXT NOT NULL, interval TEXT NOT NULL,",
      "timestamp TIMESTAMPTZ NOT NULL,",
      "open NUMERIC NOT NULL, high NUMERIC NOT NULL, low NUMERIC NOT NULL, close NUMERIC NOT NULL,",
      "volume NUMERIC NOT NULL, quote_volume NUMERIC, trade_count BIGINT,",
      "extra JSONB NOT NULL DEFAULT '\x7b\x7d'::jsonb,",
      "inserted_at TIMESTAMPTZ NOT NULL DEFAULT now(),",
      "CONSTRAINT bars_natural_key UNIQUE (exchange, symbol, interval, timestamp) );",
      "-- Trade prints.",
      "CREATE TABLE IF NOT EXISTS ticks (",
      "exchange TEXT NOT NULL, symbol TEXT NOT NULL, source TEXT NOT NULL,",
      "timestamp TIMESTAMPTZ NOT NULL,",
      "price NUMERIC NOT NULL, size NUMERIC NOT NULL, side TEXT,",
      "extra JSONB NOT NULL DEFAULT '\x7b\x7d'::jsonb,",
      "inserted_at TIMESTAMPTZ NOT NULL DEFAULT now(),",
      "CONSTRAINT ticks_natural_key UNIQUE (exchange, symbol, source, timestamp) );",
      "CREATE INDEX IF NOT EXISTS idx_ticks_symbol_time ON ticks (symbol, timestamp DESC);"]

inductive Statement where
  | start
  | commit
  | rollback
  /-- Creates the tables. -/
  | migrate
  /-- Keeps the record of what was migrated, and the lock on it. -/
  | bookkeeping (sql : String)
  | upsert (u : Upsert)

namespace Statement

def sql : Statement → String
  | .start => "BEGIN"
  | .commit => "COMMIT"
  | .rollback => "ROLLBACK"
  | .migrate => schema
  | .bookkeeping sql => sql
  | .upsert u => u.sql

end Statement
end Store
end MarketFeed
