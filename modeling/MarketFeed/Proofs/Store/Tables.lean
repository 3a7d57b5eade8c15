import MarketFeed.Proofs.Store.Upsert
import MarketFeed.Store.Postgres

/-!
# MarketFeed.Proofs.Store.Tables

What a PostgreSQL server does with the statements by which rows are written.

* `Table`, `Table.upsert` — `INSERT … ON CONFLICT … DO UPDATE` on a table with a unique constraint.
* `Executes` — a server that executes every statement, by the tables that it has then.
* `Kind`, `Kind.Lawful` — what the rows of one table are made of.
* `Holds`, `Holds.upsert` — a table holds the same rows as a list in the order of their keys.
* `Executes.persist` — a batch is written by one transaction.
-/

namespace MarketFeed
namespace Store

/-! ## Tables -/

/-- The values of all columns. -/
abbrev Row := List (String × Cell)

structure Column where
  name : String
  type : String
  /-- It may not be NULL. -/
  required : Bool
  /-- What is written where a row is inserted without a value: in SQL, and what that is at some time
  of the server. -/
  default : Option (String × (Int → Cell))

namespace Column

def value (c : Column) (now : Int) : Cell :=
  match c.default with
  | some d => d.2 now
  | none => .null

def sql (c : Column) : String :=
  c.name ++ " " ++ c.type ++ (if c.required then " NOT NULL" else "") ++
    match c.default with
    | some d => " DEFAULT " ++ d.1
    | none => ""

end Column

structure Table where
  name : String
  columns : List Column
  /-- The columns of the unique constraint. -/
  unique : List String
  rows : List Row

def Table.sql (t : Table) : String :=
  let constraint := "CONSTRAINT " ++ t.name ++ "_natural_key UNIQUE (" ++
    ", ".intercalate t.unique ++ ")"
  "CREATE TABLE IF NOT EXISTS " ++ t.name ++ " ( " ++
    ", ".intercalate (t.columns.map Column.sql ++ [constraint]) ++ " );"

/-- Whether two values of a key are the same. NULL is not the same as anything; numbers and JSON
stand in no key. -/
def Cell.equals : Cell → Cell → Bool
  | .text a, .text b => a = b
  | .timestamp a, .timestamp b => a = b
  | _, _ => false

def Cell.isNull : Cell → Bool
  | .null => true
  | _ => false

namespace Upsert

/-- Whether a row has the key of the row that is written. -/
def finds (u : Upsert) (r : Row) : Bool :=
  u.conflict.all fun c =>
    match r.lookup c, u.row.lookup c with
    | some a, some b => a.equals b
    | _, _ => false

/-- The row after the update. -/
def replace (u : Upsert) (r : Row) : Row :=
  r.map fun p => if u.replaced.contains p.1 then (p.1, (u.row.lookup p.1).getD p.2) else p

end Upsert

namespace Table

/-- The table with other rows. -/
def holding (t : Table) (rows : List Row) : Table := ⟨t.name, t.columns, t.unique, rows⟩

/-- The row that is inserted, with its defaults. -/
def complete (t : Table) (now : Int) (u : Upsert) : Row :=
  t.columns.map fun c => (c.name, (u.row.lookup c.name).getD (c.value now))

/-- There are the columns, there is the constraint, and nothing is NULL that may not be. -/
def accepts (t : Table) (now : Int) (u : Upsert) : Bool :=
  u.columns.all (fun c => t.columns.any (·.name = c)) && u.conflict = t.unique &&
    t.columns.all fun c => !(c.required && ((u.row.lookup c.name).getD (c.value now)).isNull)

/-- `INSERT … ON CONFLICT … DO UPDATE`, if it is valid. -/
def upsert (t : Table) (now : Int) (u : Upsert) : Option Table :=
  if t.accepts now u then
    some (t.holding
      (if t.rows.any u.finds then t.rows.map fun r => if u.finds r then u.replace r else r
      else t.rows ++ [t.complete now u]))
  else none

theorem upsert_holding {t : Table} {rows : List Row} {now : Int} {u : Upsert}
    (h : t.accepts now u = true) : (t.holding rows).upsert now u = some (t.holding
      (if rows.any u.finds then rows.map fun r => if u.finds r then u.replace r else r
      else rows ++ [t.complete now u])) := if_pos h

end Table

/-- A row is written to its table; none if that is not valid or there is no such table. -/
def upsertInto (now : Int) (u : Upsert) : List Table → Option (List Table)
  | [] => none
  | t :: rest =>
    if t.name = u.table then (t.upsert now u).map (· :: rest)
    else (upsertInto now u rest).map (t :: ·)

theorem upsertInto_of_name {now : Int} {u : Upsert} {t : Table} {rest : List Table}
    (h : t.name = u.table) :
    upsertInto now u (t :: rest) = (t.upsert now u).map (· :: rest) := if_pos h

theorem upsertInto_of_ne {now : Int} {u : Upsert} {t : Table} {rest : List Table}
    (h : t.name ≠ u.table) :
    upsertInto now u (t :: rest) = (upsertInto now u rest).map (t :: ·) := if_neg h

/-- A server that executes every statement: transactions start and are committed, and a row that can
be written affects one row of its table. -/
structure Executes {σ : Type} (d : Database σ) (tables : σ → List Table) : Prop where
  starts : ∀ s, ∃ n s', d.execute .start s = (.ok n, s') ∧ tables s' = tables s
  commits : ∀ s, ∃ n s', d.execute .commit s = (.ok n, s') ∧ tables s' = tables s
  upserts : ∀ u s, ∃ now, ∀ after, upsertInto now u (tables s) = some after →
    ∃ s', d.execute (.upsert u) s = (.ok 1, s') ∧ tables s' = after

/-! ## The rows of one table -/

/-- The column that only the server writes. -/
def stampColumn : String := "inserted_at"

/-- A row with the time at which it was inserted. -/
def stamped (cells : Row) (stamp : Cell) : Row := cells ++ [(stampColumn, stamp)]

/-- A row but for the time at which it was inserted. -/
def Row.given (r : Row) : Row := r.filter fun p => p.1 ≠ stampColumn

/-- What the rows of one table are made of: things with a key, and how they are written. -/
structure Kind (α : Type) where
  /-- The table without rows. -/
  table : Table
  key : α → RowKey
  upsert : α → Upsert
  /-- What the table has of a thing. -/
  cells : α → Row
  /-- What can be told apart by its key in the table. -/
  fits : α → Prop

structure Kind.Lawful {α : Type} (K : Kind α) : Prop where
  named : ∀ a, (K.upsert a).table = K.table.name
  given : ∀ a, (K.cells a).given = K.cells a
  inserts : ∀ a now, K.table.accepts now (K.upsert a) = true ∧
    K.table.complete now (K.upsert a) = stamped (K.cells a) (.timestamp now)
  finds : ∀ a b stamp, K.fits a → K.fits b →
    ((K.upsert b).finds (stamped (K.cells a) stamp) = true ↔ K.key a = K.key b)
  replaces : ∀ a b stamp, K.key a = K.key b →
    (K.upsert b).replace (stamped (K.cells a) stamp) = stamped (K.cells b) stamp

section

variable {α : Type} {key : α → RowKey} {l : List α}

/-- A row that stands for the one with its key. -/
theorem replace_perm (h : l.Pairwise fun a b => key a ≠ key b) {a : α}
    (hmem : ∃ b ∈ l, key b = key a) :
    (l.map fun b => if key b = key a then a else b).Perm
      (a :: l.filter fun b => key b ≠ key a) := by
  induction l with
  | nil =>
    obtain ⟨b, hb, -⟩ := hmem
    cases hb
  | cons b l ih =>
    obtain ⟨hfirst, hrest⟩ := List.pairwise_cons.1 h
    by_cases hb : key b = key a
    · have hother : ∀ c ∈ l, key c ≠ key a := fun c hc heq => hfirst c hc (hb.trans heq.symm)
      have hmap : (l.map fun c => if key c = key a then a else c) = l :=
        (List.map_congr_left fun c hc => if_neg (hother c hc)).trans (List.map_id l)
      rw [List.map_cons, if_pos hb, hmap, List.filter_cons_of_neg (by simpa using hb),
        List.filter_eq_self.2 fun c hc => decide_eq_true (hother c hc)]
    · have hlater : ∃ c ∈ l, key c = key a := by
        obtain ⟨c, hc, heq⟩ := hmem
        rcases List.mem_cons.1 hc with rfl | hc
        · exact absurd heq hb
        · exact ⟨c, hc, heq⟩
      rw [List.map_cons, if_neg hb, List.filter_cons_of_pos (by simpa using hb)]
      exact ((ih hrest hlater).cons b).trans (.swap a b _)

variable {K : Kind α}

/-- A table holds the things of a list, each in one row. -/
structure Holds (K : Kind α) (rows : List Row) (l : List α) : Prop where
  inOrder : InOrder K.key l
  fits : ∀ a ∈ l, K.fits a
  rows : ∃ stamps : List (α × Cell), rows = stamps.map (fun p => stamped (K.cells p.1) p.2) ∧
    (stamps.map Prod.fst).Perm l

theorem Holds.empty (K : Kind α) : Holds K [] [] :=
  ⟨.nil, fun _ ha => absurd ha List.not_mem_nil, [], rfl, .refl _⟩

theorem Holds.given {rows : List Row} (h : Holds K rows l) (hK : K.Lawful) :
    (rows.map Row.given).Perm (l.map K.cells) := by
  obtain ⟨stamps, rfl, hperm⟩ := h.rows
  have hgiven : (stamps.map fun p => stamped (K.cells p.1) p.2).map Row.given =
      (stamps.map Prod.fst).map K.cells := by
    rw [List.map_map, List.map_map]
    refine List.map_congr_left fun p _ => ?_
    simp only [Function.comp_apply, Row.given, stamped, List.filter_append]
    exact (congrArg (· ++ _) (hK.given p.1)).trans (List.append_nil _)
  rw [hgiven]
  exact hperm.map K.cells

/-- What becomes of the stamped things of a table when one of them is written. -/
def restamp (K : Kind α) (a : α) (now : Int) (stamps : List (α × Cell)) : List (α × Cell) :=
  if ∃ p ∈ stamps, K.key p.1 = K.key a then
    stamps.map fun p => if K.key p.1 = K.key a then (a, p.2) else p
  else stamps ++ [(a, .timestamp now)]

theorem restamp_perm {stamps : List (α × Cell)} {a : α} {now : Int}
    (hne : (stamps.map Prod.fst).Pairwise fun a b => K.key a ≠ K.key b) :
    ((restamp K a now stamps).map Prod.fst).Perm
      (a :: (stamps.map Prod.fst).filter fun b => K.key b ≠ K.key a) := by
  rw [restamp]
  split
  · rename_i hmem
    obtain ⟨p, hp, hkey⟩ := hmem
    have hmap : (stamps.map fun p => if K.key p.1 = K.key a then (a, p.2) else p).map Prod.fst =
        (stamps.map Prod.fst).map fun b => if K.key b = K.key a then a else b := by
      rw [List.map_map, List.map_map]
      refine List.map_congr_left fun p _ => ?_
      simp only [Function.comp_apply]
      split <;> rfl
    rw [hmap]
    exact replace_perm hne ⟨p.1, List.mem_map_of_mem hp, hkey⟩
  · rename_i hno
    have hall : ∀ b ∈ stamps.map Prod.fst, K.key b ≠ K.key a := by
      intro b hb hkey
      obtain ⟨p, hp, rfl⟩ := List.mem_map.1 hb
      exact hno ⟨p, hp, hkey⟩
    rw [List.map_append, List.filter_eq_self.2 fun b hb => decide_eq_true (hall b hb)]
    exact List.perm_append_comm

/-- The rows of a table are written by their keys. -/
theorem Kind.Lawful.upsert (hK : K.Lawful) {stamps : List (α × Cell)} {a : α}
    (hfits : ∀ p ∈ stamps, K.fits p.1) (ha : K.fits a) (now : Int) :
    (K.table.holding (stamps.map fun p => stamped (K.cells p.1) p.2)).upsert now (K.upsert a) =
      some (K.table.holding
        ((restamp K a now stamps).map fun p => stamped (K.cells p.1) p.2)) := by
  obtain ⟨haccepts, hcomplete⟩ := hK.inserts a now
  have hfinds (p : α × Cell) (hp : p ∈ stamps) :
      (K.upsert a).finds (stamped (K.cells p.1) p.2) = true ↔ K.key p.1 = K.key a :=
    hK.finds p.1 a p.2 (hfits p hp) ha
  have hany : (stamps.map fun p => stamped (K.cells p.1) p.2).any (K.upsert a).finds = true ↔
      ∃ p ∈ stamps, K.key p.1 = K.key a := by
    rw [List.any_map, List.any_eq_true]
    exact exists_congr fun p => and_congr_right (hfinds p)
  rw [Table.upsert_holding haccepts, restamp]
  by_cases hmem : ∃ p ∈ stamps, K.key p.1 = K.key a
  · rw [if_pos (hany.2 hmem), if_pos hmem, List.map_map, List.map_map]
    congr 2
    refine List.map_congr_left fun p hp => ?_
    simp only [Function.comp_apply, hfinds p hp]
    split
    · rename_i hkey
      exact hK.replaces p.1 a p.2 hkey
    · rfl
  · rw [if_neg fun h => hmem (hany.1 h), if_neg hmem, List.map_append, hcomplete]
    rfl

/-- A row that is written to both stands in both. -/
theorem Holds.upsert {rows : List Row} (h : Holds K rows l) (hK : K.Lawful) {a : α} (ha : K.fits a)
    (now : Int) : ∃ rows', (K.table.holding rows).upsert now (K.upsert a) =
      some (K.table.holding rows') ∧ Holds K rows' (Store.upsert K.key a l) := by
  obtain ⟨stamps, rfl, hperm⟩ := h.rows
  have hfits : ∀ p ∈ stamps, K.fits p.1 :=
    fun p hp => h.fits _ (hperm.mem_iff.1 (List.mem_map_of_mem hp))
  have hne : (stamps.map Prod.fst).Pairwise fun a b => K.key a ≠ K.key b :=
    (hperm.pairwise_iff fun hne => hne.symm).2 h.inOrder.ne
  have hupsert := h.inOrder.upsert_perm a
  refine ⟨_, hK.upsert hfits ha now, h.inOrder.upsert a, ?_, restamp K a now stamps, rfl, ?_⟩
  · intro b hb
    rcases List.mem_cons.1 (hupsert.mem_iff.1 hb) with rfl | hb
    · exact ha
    · exact h.fits b (List.mem_filter.1 hb).1
  · exact (restamp_perm hne).trans (((hperm.filter _).cons a).trans hupsert.symm)

end

/-! ## Batches -/

section

variable {σ α β : Type} {d : Database σ} {tables : σ → List Table} {up : α → Upsert}
  {fits : α → Prop} {agrees : List Table → β → Prop} {write : β → α → β} {s : σ} {b : β}

theorem Executes.executeAll (h : Executes d tables)
    (hwrite : ∀ ts b a now, agrees ts b → fits a →
      ∃ ts', upsertInto now (up a) ts = some ts' ∧ agrees ts' (write b a))
    (rows : List α) (hfits : ∀ a ∈ rows, fits a) (hs : agrees (tables s) b) :
    ∃ s', d.executeAll ((rows.map up).map .upsert) s = (.ok rows.length, s') ∧
      agrees (tables s') (rows.foldl write b) := by
  induction rows generalizing s b with
  | nil => exact ⟨s, rfl, hs⟩
  | cons a rows ih =>
    obtain ⟨now, hnow⟩ := h.upserts (up a) s
    obtain ⟨ts', hts, hagrees⟩ := hwrite _ _ a now hs (hfits a List.mem_cons_self)
    obtain ⟨s₁, hexecute, rfl⟩ := hnow ts' hts
    obtain ⟨s₂, hrest, hagrees'⟩ := ih (fun b hb => hfits b (List.mem_cons_of_mem a hb)) hagrees
    refine ⟨s₂, ?_, hagrees'⟩
    rw [List.map_cons, List.map_cons, Database.executeAll, hexecute]
    dsimp only
    rw [hrest]
    dsimp only
    rw [List.length_cons, Nat.add_comm]

/-- A batch is written by one transaction, one row after another. -/
theorem Executes.persist (h : Executes d tables)
    (hwrite : ∀ ts b a now, agrees ts b → fits a →
      ∃ ts', upsertInto now (up a) ts = some ts' ∧ agrees ts' (write b a))
    (rows : List α) (hfits : ∀ a ∈ rows, fits a) (hs : agrees (tables s) b) :
    ∃ s', d.persist (rows.map up) s = (.ok rows.length, s') ∧
      agrees (tables s') (rows.foldl write b) := by
  cases rows with
  | nil => exact ⟨s, rfl, hs⟩
  | cons a rows =>
    obtain ⟨n, s₁, hstart, hsame⟩ := h.starts s
    obtain ⟨s₂, hall, hagrees⟩ := h.executeAll hwrite (a :: rows) hfits (hsame.symm ▸ hs)
    obtain ⟨m, s₃, hcommit, hsame'⟩ := h.commits s₂
    refine ⟨s₃, ?_, hsame'.symm ▸ hagrees⟩
    have htransaction : d.transaction (((a :: rows).map up).map .upsert) s =
        (.ok (a :: rows).length, s₃) := by
      rw [Database.transaction, hstart]
      dsimp only
      rw [hall]
      dsimp only
      rw [hcommit]
    rw [Database.persist, htransaction]
    rfl

end

end Store
end MarketFeed
