import MarketFeed.Store.Postgres

/-!
# MarketFeed.Store.Server

* `Server` — a PostgreSQL server that follows a script and keeps a log: the outcomes of the rows
  in order, and a text that makes every statement fail in which it occurs.
-/

namespace MarketFeed
namespace Store

structure Server where
  /-- The outcomes of the next rows; later rows affect one row each. -/
  writes : List (Except String Nat)
  failing : Option String
  /-- The statements so far, with their success. -/
  log : List (Statement × Bool)

namespace Server

def new (writes : List (Except String Nat)) (failing : Option String) : Server :=
  ⟨writes, failing, []⟩

/-- Whether a text occurs in another one. -/
def occursIn (part : List Char) : List Char → Bool
  | [] => part.isEmpty
  | c :: rest => part.isPrefixOf (c :: rest) || occursIn part rest

def refuses (s : Server) (st : Statement) : Bool :=
  match s.failing with
  | some part => occursIn part.toList st.sql.toList
  | none => false

/-- The outcome of a statement, and the script after it. -/
def outcome (s : Server) (st : Statement) : Except String Nat × Server :=
  if s.refuses st then (.error "refused", s)
  else
    match st, s.writes with
    | .upsert _, [] => (.ok 1, s)
    | .upsert _, w :: rest => (w, { s with writes := rest })
    | _, _ => (.ok 0, s)

def succeeded : Except String Nat → Bool
  | .ok _ => true
  | .error _ => false

def execute (st : Statement) (s : Server) : Except String Nat × Server :=
  let (r, s) := s.outcome st
  (r, { s with log := s.log ++ [(st, succeeded r)] })

def database : Database Server := ⟨execute⟩

/-- The log, which is forgotten at once. -/
def takeLog (s : Server) : List (Statement × Bool) × Server := (s.log, { s with log := [] })

end Server
end Store
end MarketFeed
