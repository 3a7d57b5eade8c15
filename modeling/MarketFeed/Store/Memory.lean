import MarketFeed.Market.Bar

/-!
# MarketFeed.Store.Memory

Bars and ticks kept in memory. A row replaces the one with the same key.

* `upsert` — puts a row into a list of rows in the order of their keys.
* `Memory` — the two tables.
-/

namespace MarketFeed
namespace Store

variable {α : Type}

/-- Puts a row at its place among rows in the order of their keys. -/
def upsert (key : α → RowKey) (row : α) : List α → List α
  | [] => [row]
  | r :: rest =>
    match (key row).order (key r) with
    | .lt => row :: r :: rest
    | .eq => row :: rest
    | .gt => r :: upsert key row rest

/-- Puts in several rows, the last ones last. -/
def upsertAll (key : α → RowKey) (rows : List α) (table : List α) : List α :=
  rows.foldl (fun table row => upsert key row table) table

/-- Both tables in the order of their keys. -/
structure Memory where
  bars : List Bar
  ticks : List Tick

namespace Memory

def empty : Memory := ⟨[], []⟩

instance : Inhabited Memory := ⟨empty⟩

/-- Writes bars and tells how many were given. -/
def persistBars (m : Memory) (rows : List Bar) : Nat × Memory :=
  (rows.length, { m with bars := upsertAll Bar.key rows m.bars })

/-- Writes ticks and tells how many were given. -/
def persistTicks (m : Memory) (rows : List Tick) : Nat × Memory :=
  (rows.length, { m with ticks := upsertAll Tick.key rows m.ticks })

end Memory
end Store
end MarketFeed
