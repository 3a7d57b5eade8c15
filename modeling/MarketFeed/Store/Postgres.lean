import MarketFeed.Store.Error
import MarketFeed.Store.Statement

/-!
# MarketFeed.Store.Postgres

Rows are written to a PostgreSQL server in transactions, all of a batch or none.

* `Database` — what a server does with a statement.
* `Database.persist` — one transaction for a batch; the first failure ends it.
* `Database.migrate` — the tables are created once, before anything is written.
-/

namespace MarketFeed
namespace Store

/-- A server with state `σ`: it executes a statement, and tells how many rows it affected, or
fails. -/
structure Database (σ : Type) where
  execute : Statement → σ → Except String Nat × σ

namespace Database

variable {σ : Type} (d : Database σ)

/-- Executes statements up to the first failure and adds up the affected rows. -/
def executeAll : List Statement → σ → Except String Nat × σ
  | [], s => (.ok 0, s)
  | st :: rest, s =>
    match d.execute st s with
    | (.error e, s) => (.error e, s)
    | (.ok n, s) =>
      match executeAll rest s with
      | (.error e, s) => (.error e, s)
      | (.ok m, s) => (.ok (n + m), s)

/-- Statements as one transaction. If one of them fails, all is rolled back. -/
def transaction (statements : List Statement) (s : σ) : Except String Nat × σ :=
  match d.execute .start s with
  | (.error e, s) => (.error e, s)
  | (.ok _, s) =>
    match d.executeAll statements s with
    | (.error e, s) => (.error e, (d.execute .rollback s).2)
    | (.ok n, s) =>
      match d.execute .commit s with
      | (.error e, s) => (.error e, (d.execute .rollback s).2)
      | (.ok _, s) => (.ok n, s)

/-- Writes a batch; an empty one is not sent at all. -/
def persist (rows : List Upsert) (s : σ) : Except StoreError Nat × σ :=
  if rows.isEmpty then (.ok 0, s)
  else
    match d.transaction (rows.map .upsert) s with
    | (.ok n, s) => (.ok n, s)
    | (.error e, s) => (.error (.database e), s)

def persistBars (rows : List Bar) (s : σ) : Except StoreError Nat × σ :=
  d.persist (rows.map .ofBar) s

def persistTicks (rows : List Tick) (s : σ) : Except StoreError Nat × σ :=
  d.persist (rows.map .ofTick) s

/-- The table that records what was migrated. -/
def recordTable : String :=
  " ".intercalate
    ["CREATE TABLE IF NOT EXISTS _sqlx_migrations (",
      "version BIGINT PRIMARY KEY, description TEXT NOT NULL,",
      "installed_on TIMESTAMPTZ NOT NULL DEFAULT now(), success BOOLEAN NOT NULL,",
      "checksum BYTEA NOT NULL, execution_time BIGINT NOT NULL );"]

/-- The entry of a migration in that table. -/
def recordEntry : String :=
  "INSERT INTO _sqlx_migrations ( version, description, success, checksum, execution_time ) " ++
    "VALUES ( $1, $2, TRUE, $3, -1 )"

/-- Before the migration: its lock, its record, and a look at what that says. -/
def beforeMigration : List Statement :=
  [.bookkeeping "SELECT current_database()",
    .bookkeeping "SELECT pg_advisory_lock($1)",
    .bookkeeping recordTable,
    .bookkeeping ("SELECT version FROM _sqlx_migrations " ++
      "WHERE success = false ORDER BY version LIMIT 1"),
    .bookkeeping "SELECT version, checksum FROM _sqlx_migrations ORDER BY version"]

/-- The migration itself, with its entry in the record. -/
def migration : List Statement := [.migrate, .bookkeeping recordEntry]

/-- After the migration: the time it took, and its lock. -/
def afterMigration : List Statement :=
  [.bookkeeping "UPDATE _sqlx_migrations SET execution_time = $1 WHERE version = $2",
    .bookkeeping "SELECT current_database()",
    .bookkeeping "SELECT pg_advisory_unlock($1)"]

/-- Creates the tables. -/
def migrate (s : σ) : Except StoreError Unit × σ :=
  let failed (e : String) : Except StoreError Unit := .error (.database ("migration failed: " ++ e))
  match d.executeAll beforeMigration s with
  | (.error e, s) => (failed e, s)
  | (.ok _, s) =>
    match d.transaction migration s with
    | (.error e, s) => (failed e, s)
    | (.ok _, s) =>
      match d.executeAll afterMigration s with
      | (.error e, s) => (failed e, s)
      | (.ok _, s) => (.ok (), s)

end Database
end Store
end MarketFeed
