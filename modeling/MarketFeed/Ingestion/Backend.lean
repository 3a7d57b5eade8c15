import MarketFeed.Store.Memory
import MarketFeed.Store.Server

/-!
# MarketFeed.Ingestion.Backend

* `Backend` — where the rows go: into memory, or to a PostgreSQL server.
* `Backend.connect` — a server that was found, with its tables in place.
-/

namespace MarketFeed
namespace Ingestion

inductive Backend where
  | memory (m : Store.Memory)
  | postgres (s : Store.Server)

namespace Backend

def persistBars (rows : List Bar) : Backend → Except StoreError Nat × Backend
  | .memory m =>
    let (n, m) := m.persistBars rows
    (.ok n, .memory m)
  | .postgres s =>
    let (r, s) := Store.Server.database.persistBars rows s
    (r, .postgres s)

def persistTicks (rows : List Tick) : Backend → Except StoreError Nat × Backend
  | .memory m =>
    let (n, m) := m.persistTicks rows
    (.ok n, .memory m)
  | .postgres s =>
    let (r, s) := Store.Server.database.persistTicks rows s
    (r, .postgres s)

/-- The server at an address, if it is the one that the url is for. -/
def connect (address url : String) (s : Store.Server) : Except StoreError Unit × Backend :=
  if address.toList.isPrefixOf url.toList then
    let (r, s) := Store.Server.database.migrate s
    (r, .postgres s)
  else (.error (.database "connection refused"), .postgres s)

/-- The number of bars and of ticks in memory. -/
def counts : Backend → Nat × Nat
  | .memory m => (m.bars.length, m.ticks.length)
  | .postgres _ => (0, 0)

/-- The statements that a server was sent. -/
def statements : Backend → List (Store.Statement × Bool)
  | .memory _ => []
  | .postgres s => s.log

end Backend
end Ingestion
end MarketFeed
