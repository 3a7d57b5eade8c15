import Mathlib.Algebra.Group.Int.Defs
import Mathlib.Algebra.Group.Nat.Defs
import MarketFeed.Proofs.Store.Tables

/-!
# MarketFeed.Proofs.Store.Sinks

Rows written to a PostgreSQL server and rows kept in memory are the same rows, except for counts of
trades that the server's column does not hold.

* `barTable`, `tickTable`, `schema_eq` — the tables that the migration creates.
* `Instant.Whole`, `serverMicros_of_whole` — moments that the server keeps as they are.
* `barKind_lawful`, `tickKind_lawful` — what the rows of both tables are made of.
* `sinks_agree` — both stores after any batches: all counts, and all rows in all columns.
* `sinks_differ_in_count` — a count of trades from `2 ^ 63` on is negative on the server only.
-/

namespace MarketFeed

/-- A moment in whole microseconds, and not in a leap second. -/
def Instant.Whole (t : Instant) : Prop := t.nanos < 1000000000 ∧ t.nanos % 1000 = 0

instance (t : Instant) : Decidable t.Whole := inferInstanceAs (Decidable (_ ∧ _))

namespace Store

/-! ## The tables of the migration -/

def text (name : String) : Column := ⟨name, "TEXT", true, none⟩

def numeric (name : String) : Column := ⟨name, "NUMERIC", true, none⟩

/-- The columns that both tables end with. -/
def lastColumns : List Column :=
  [⟨"extra", "JSONB", true, some ("'\x7b\x7d'::jsonb", fun _ => .json [])⟩,
    ⟨stampColumn, "TIMESTAMPTZ", true, some ("now()", .timestamp)⟩]

def barTable : Table where
  name := "bars"
  columns := [text "exchange", text "symbol", text "interval",
    ⟨"timestamp", "TIMESTAMPTZ", true, none⟩, numeric "open", numeric "high", numeric "low",
    numeric "close", numeric "volume", ⟨"quote_volume", "NUMERIC", false, none⟩,
    ⟨"trade_count", "BIGINT", false, none⟩] ++ lastColumns
  unique := ["exchange", "symbol", "interval", "timestamp"]
  rows := []

def tickTable : Table where
  name := "ticks"
  columns := [text "exchange", text "symbol", text "source",
    ⟨"timestamp", "TIMESTAMPTZ", true, none⟩, numeric "price", numeric "size",
    ⟨"side", "TEXT", false, none⟩] ++ lastColumns
  unique := ["exchange", "symbol", "source", "timestamp"]
  rows := []

/-- The migration creates these tables. -/
theorem schema_eq :
    schema = " ".intercalate
      ["-- OHLCV bars, one row per (exchange, symbol, interval, open time).", barTable.sql,
        "-- Trade prints.", tickTable.sql,
        "CREATE INDEX IF NOT EXISTS idx_ticks_symbol_time ON ticks (symbol, timestamp DESC);"] := by
  decide +kernel

/-! ## What the columns hold -/

theorem serverMicros_of_whole {t : Instant} (h : t.Whole) : serverMicros t = t.micros := by
  have hnanos : (t.nanos : Int) = 1000 * (t.nanos / 1000 : Nat) := by
    have := h.2
    omega
  have hsum : (t.unixSeconds - 946684800) * 1000000000 + t.nanos =
      1000 * ((t.unixSeconds - 946684800) * 1000000 + (t.nanos / 1000 : Nat)) := by omega
  rw [serverMicros, Instant.micros, hsum, Int.mul_tdiv_cancel_left _ (by decide)]
  omega

theorem micros_inj {t t' : Instant} (h : t.Whole) (h' : t'.Whole) :
    t.micros = t'.micros ↔ t = t' := by
  constructor
  · intro heq
    obtain ⟨day, second, nanos, _, _, hsecond, _, _⟩ := t
    obtain ⟨day', second', nanos', _, _, hsecond', _, _⟩ := t'
    simp only [Instant.Whole] at h h'
    simp only [Instant.micros, Instant.unixSeconds] at heq
    obtain rfl : day = day' := by omega
    obtain rfl : second = second' := by omega
    obtain rfl : nanos = nanos' := by omega
    rfl
  · rintro rfl
    rfl

/-- A count in the signed column: from `2 ^ 63` on it is negative. -/
def signed (n : UInt64) : Int := if n.toNat < 2 ^ 63 then n.toNat else n.toNat - 2 ^ 64

theorem signed_eq (n : UInt64) : n.toInt64.toInt = signed n := by
  have hint : n.toInt64.toInt = n.toBitVec.toInt := rfl
  have hnat : n.toBitVec.toNat = n.toNat := rfl
  rw [hint, BitVec.toInt_eq_toNat_cond, hnat, signed]
  split <;> split <;> omega

/-- What each column holds of a bar, by what becomes of the count of trades. -/
def barCells (count : UInt64 → Int) (b : Bar) : Row :=
  [("exchange", .text b.exchange), ("symbol", .text b.symbol), ("interval", .text b.interval),
    ("timestamp", .timestamp b.timestamp.micros), ("open", .numeric b.open),
    ("high", .numeric b.high), ("low", .numeric b.low), ("close", .numeric b.close),
    ("volume", .numeric b.volume), ("quote_volume", .ofOption .numeric b.quoteVolume),
    ("trade_count", .ofOption (fun n => .bigint (count n)) b.tradeCount),
    ("extra", .json b.extra)]

theorem barCells_of_small {b : Bar} (h : ∀ n, b.tradeCount = some n → n.toNat < 2 ^ 63) :
    barCells signed b = barCells (fun n => n.toNat) b := by
  have hcount : Cell.ofOption (fun n => .bigint (signed n)) b.tradeCount =
      Cell.ofOption (fun n => .bigint n.toNat) b.tradeCount := by
    cases hb : b.tradeCount with
    | none => rfl
    | some n => rw [Cell.ofOption, Cell.ofOption, signed, if_pos (h n hb)]
  rw [barCells, hcount]
  rfl

def tickCells (t : Tick) : Row :=
  [("exchange", .text t.exchange), ("symbol", .text t.symbol), ("source", .text t.source),
    ("timestamp", .timestamp t.timestamp.micros), ("price", .numeric t.price),
    ("size", .numeric t.size), ("side", .ofOption (fun s => .text s.name) t.side),
    ("extra", .json t.extra)]

def barKind : Kind Bar where
  table := barTable
  key := Bar.key
  upsert := .ofBar
  cells b := (Upsert.ofBar b).row
  fits b := b.timestamp.Whole

def tickKind : Kind Tick where
  table := tickTable
  key := Tick.key
  upsert := .ofTick
  cells t := (Upsert.ofTick t).row
  fits t := t.timestamp.Whole

theorem ofBar_row {b : Bar} (h : b.timestamp.Whole) : (Upsert.ofBar b).row = barCells signed b := by
  simp only [Upsert.ofBar, barCells, serverMicros_of_whole h, signed_eq]

theorem ofTick_row {t : Tick} (h : t.timestamp.Whole) : (Upsert.ofTick t).row = tickCells t := by
  simp only [Upsert.ofTick, tickCells, serverMicros_of_whole h]

/-- The cells of a key in a table whose third column is named so. -/
def keyCells (kind : String) (k : RowKey) : Row :=
  [("exchange", .text k.exchange), ("symbol", .text k.symbol), (kind, .text k.kind),
    ("timestamp", .timestamp (serverMicros k.time))]

/-- Two keys are the same for the server where they are the same. -/
theorem sameKey_iff {k l : RowKey} (hk : k.time.Whole) (hl : l.time.Whole) :
    (decide (k.exchange = l.exchange) && (decide (k.symbol = l.symbol) &&
      (decide (k.kind = l.kind) && (decide (serverMicros k.time = serverMicros l.time) && true))))
      = true ↔ k = l := by
  obtain ⟨exchange, symbol, kind, time⟩ := k
  obtain ⟨exchange', symbol', kind', time'⟩ := l
  rw [serverMicros_of_whole hk, serverMicros_of_whole hl]
  simp only [Bool.and_eq_true, decide_eq_true_eq, and_true, RowKey.mk.injEq, micros_inj hk hl]

theorem barKind_lawful : barKind.Lawful where
  named _ := rfl
  given _ := rfl
  inserts _ _ := ⟨rfl, rfl⟩
  finds a b _ ha hb := sameKey_iff (k := a.key) (l := b.key) ha hb
  replaces a b stamp hkey := by
    have hreplace : (Upsert.ofBar b).replace (stamped (Upsert.ofBar a).row stamp) =
        keyCells "interval" a.key ++ stamped ((Upsert.ofBar b).row.drop 4) stamp := rfl
    have hkey' : a.key = b.key := hkey
    exact hreplace.trans (by rw [hkey']; rfl)

theorem tickKind_lawful : tickKind.Lawful where
  named _ := rfl
  given _ := rfl
  inserts _ _ := ⟨rfl, rfl⟩
  finds a b _ ha hb := sameKey_iff (k := a.key) (l := b.key) ha hb
  replaces a b stamp hkey := by
    have hreplace : (Upsert.ofTick b).replace (stamped (Upsert.ofTick a).row stamp) =
        keyCells "source" a.key ++ stamped ((Upsert.ofTick b).row.drop 4) stamp := rfl
    have hkey' : a.key = b.key := hkey
    exact hreplace.trans (by rw [hkey']; rfl)

/-! ## Batches -/

/-- Rows for one of the tables. -/
inductive Batch where
  | bars (rows : List Bar)
  | ticks (rows : List Tick)

/-- All its times are moments that the server keeps. -/
def Batch.Whole : Batch → Prop
  | .bars rows => ∀ b ∈ rows, b.timestamp.Whole
  | .ticks rows => ∀ t ∈ rows, t.timestamp.Whole

namespace Database

variable {σ : Type} (d : Database σ)

def write (s : σ) : Batch → Except StoreError Nat × σ
  | .bars rows => d.persistBars rows s
  | .ticks rows => d.persistTicks rows s

/-- Writes batches one after another: what each call gives, and the server then. -/
def writeAll (s : σ) : List Batch → List (Except StoreError Nat) × σ
  | [] => ([], s)
  | b :: rest =>
    let (r, s) := d.write s b
    let (rs, s) := writeAll s rest
    (r :: rs, s)

end Database

namespace Memory

def write (m : Memory) : Batch → Nat × Memory
  | .bars rows => m.persistBars rows
  | .ticks rows => m.persistTicks rows

def writeAll (m : Memory) : List Batch → List Nat × Memory
  | [] => ([], m)
  | b :: rest =>
    let (n, m) := m.write b
    let (ns, m) := writeAll m rest
    (n :: ns, m)

end Memory

/-- The tables hold what is kept in memory. -/
def Agrees (ts : List Table) (m : Memory) : Prop :=
  ∃ bars ticks, ts = [barTable.holding bars, tickTable.holding ticks] ∧
    Holds barKind bars m.bars ∧ Holds tickKind ticks m.ticks

theorem Agrees.upsertBar {ts : List Table} {m : Memory} (h : Agrees ts m) {b : Bar}
    (hb : b.timestamp.Whole) (now : Int) : ∃ ts', upsertInto now (.ofBar b) ts = some ts' ∧
      Agrees ts' { m with bars := upsert Bar.key b m.bars } := by
  obtain ⟨bars, ticks, rfl, hbars, hticks⟩ := h
  obtain ⟨bars', hupsert, hbars'⟩ := hbars.upsert barKind_lawful hb now
  refine ⟨_, ?_, bars', ticks, rfl, hbars', hticks⟩
  rw [upsertInto_of_name rfl]
  exact congrArg (Option.map _) hupsert

theorem Agrees.upsertTick {ts : List Table} {m : Memory} (h : Agrees ts m) {t : Tick}
    (ht : t.timestamp.Whole) (now : Int) : ∃ ts', upsertInto now (.ofTick t) ts = some ts' ∧
      Agrees ts' { m with ticks := upsert Tick.key t m.ticks } := by
  obtain ⟨bars, ticks, rfl, hbars, hticks⟩ := h
  obtain ⟨ticks', hupsert, hticks'⟩ := hticks.upsert tickKind_lawful ht now
  refine ⟨_, ?_, bars, ticks', rfl, hbars, hticks'⟩
  have hname : barTable.name ≠ tickTable.name := by decide
  rw [upsertInto_of_ne hname, upsertInto_of_name rfl]
  exact congrArg (Option.map _) (congrArg (Option.map _) hupsert)

theorem foldl_bars (rows : List Bar) (m : Memory) :
    rows.foldl (fun m b => { m with bars := upsert Bar.key b m.bars }) m =
      (m.persistBars rows).2 := by
  induction rows generalizing m with
  | nil => rfl
  | cons b rows ih => exact ih _

theorem foldl_ticks (rows : List Tick) (m : Memory) :
    rows.foldl (fun m t => { m with ticks := upsert Tick.key t m.ticks }) m =
      (m.persistTicks rows).2 := by
  induction rows generalizing m with
  | nil => rfl
  | cons t rows ih => exact ih _

section

variable {σ : Type} {d : Database σ} {tables : σ → List Table} {s : σ} {m : Memory}

theorem Agrees.write (hd : Executes d tables) (h : Agrees (tables s) m) {b : Batch}
    (hb : b.Whole) : ∃ s', d.write s b = (.ok (m.write b).1, s') ∧
      Agrees (tables s') (m.write b).2 := by
  cases b with
  | bars rows =>
    have hwrite (ts : List Table) (m : Memory) (b : Bar) (now : Int) (h : Agrees ts m)
        (hb : b.timestamp.Whole) := h.upsertBar hb now
    obtain ⟨s', hpersist, hagrees⟩ := hd.persist hwrite rows hb h
    rw [foldl_bars] at hagrees
    exact ⟨s', hpersist, hagrees⟩
  | ticks rows =>
    have hwrite (ts : List Table) (m : Memory) (t : Tick) (now : Int) (h : Agrees ts m)
        (ht : t.timestamp.Whole) := h.upsertTick ht now
    obtain ⟨s', hpersist, hagrees⟩ := hd.persist hwrite rows hb h
    rw [foldl_ticks] at hagrees
    exact ⟨s', hpersist, hagrees⟩

theorem Agrees.writeAll (hd : Executes d tables) (h : Agrees (tables s) m) {batches : List Batch}
    (hwhole : ∀ b ∈ batches, b.Whole) : ∃ s',
      d.writeAll s batches = ((m.writeAll batches).1.map .ok, s') ∧
      Agrees (tables s') (m.writeAll batches).2 := by
  induction batches generalizing s m with
  | nil => exact ⟨s, rfl, h⟩
  | cons b rest ih =>
    obtain ⟨s₁, hwrite, h₁⟩ := h.write hd (hwhole b List.mem_cons_self)
    obtain ⟨s₂, hrest, h₂⟩ := ih h₁ fun b' hb => hwhole b' (List.mem_cons_of_mem b hb)
    refine ⟨s₂, ?_, h₂⟩
    rw [Database.writeAll, hwrite]
    dsimp only
    rw [hrest]
    rfl

end

/-- Both stores after some batches, the tables of the server empty at first: every call gives the
same count, and the rows of each table are those kept in memory, one for each key, with the same
value in every column. Only a count of trades is what the signed column makes of it, which is the
same below `2 ^ 63`. -/
theorem sinks_agree {σ : Type} (d : Database σ) (tables : σ → List Table) (hd : Executes d tables)
    (s : σ) (hs : tables s = [barTable, tickTable]) (batches : List Batch)
    (hwhole : ∀ b ∈ batches, b.Whole) : ∃ s' bars ticks,
      d.writeAll s batches = ((Memory.empty.writeAll batches).1.map .ok, s') ∧
      tables s' = [barTable.holding bars, tickTable.holding ticks] ∧
      InOrder Bar.key (Memory.empty.writeAll batches).2.bars ∧
      InOrder Tick.key (Memory.empty.writeAll batches).2.ticks ∧
      (ticks.map Row.given).Perm ((Memory.empty.writeAll batches).2.ticks.map tickCells) ∧
      (bars.map Row.given).Perm
        ((Memory.empty.writeAll batches).2.bars.map (barCells signed)) ∧
      ((∀ b ∈ (Memory.empty.writeAll batches).2.bars, ∀ n, b.tradeCount = some n →
          n.toNat < 2 ^ 63) →
        (bars.map Row.given).Perm
          ((Memory.empty.writeAll batches).2.bars.map (barCells fun n => n.toNat))) := by
  have hempty : Agrees (tables s) .empty := ⟨[], [], hs, .empty _, .empty _⟩
  obtain ⟨s', hwrite, bars, ticks, htables, hbars, hticks⟩ := hempty.writeAll hd hwhole
  have hbarRows : (Memory.empty.writeAll batches).2.bars.map barKind.cells =
      (Memory.empty.writeAll batches).2.bars.map (barCells signed) :=
    List.map_congr_left fun b hb => ofBar_row (hbars.fits b hb)
  have htickRows : (Memory.empty.writeAll batches).2.ticks.map tickKind.cells =
      (Memory.empty.writeAll batches).2.ticks.map tickCells :=
    List.map_congr_left fun t ht => ofTick_row (hticks.fits t ht)
  refine ⟨s', bars, ticks, hwrite, htables, hbars.inOrder, hticks.inOrder,
    htickRows ▸ hticks.given tickKind_lawful, hbarRows ▸ hbars.given barKind_lawful,
    fun hsmall => ?_⟩
  have hcounts : (Memory.empty.writeAll batches).2.bars.map (barCells signed) =
      (Memory.empty.writeAll batches).2.bars.map (barCells fun n => n.toNat) :=
    List.map_congr_left fun b hb => barCells_of_small (hsmall b hb)
  exact hcounts ▸ hbarRows ▸ hbars.given barKind_lawful

/-! ## A server -/

/-- A server by its tables, with its clock and the tables as they were when a transaction
started. -/
structure TableServer where
  now : Int
  tables : List Table
  saved : Option (List Table)

namespace TableServer

def execute (st : Statement) (s : TableServer) : Except String Nat × TableServer :=
  match st with
  | .start => (.ok 0, { s with saved := some s.tables })
  | .commit => (.ok 0, { s with saved := none })
  | .rollback => (.ok 0, { s with tables := s.saved.getD s.tables, saved := none })
  | .migrate =>
    let missing := [barTable, tickTable].filter fun t => !s.tables.any (·.name = t.name)
    (.ok 0, { s with tables := s.tables ++ missing })
  | .bookkeeping _ => (.ok 0, s)
  | .upsert u =>
    match upsertInto s.now u s.tables with
    | some tables => (.ok 1, { s with now := s.now + 1, tables })
    | none => (.error "invalid", s)

def database : Database TableServer := ⟨execute⟩

theorem executes : Executes database tables where
  starts _ := ⟨0, _, rfl, rfl⟩
  commits _ := ⟨0, _, rfl, rfl⟩
  upserts u s := by
    refine ⟨s.now, fun after h => ⟨{ s with now := s.now + 1, tables := after }, ?_, rfl⟩⟩
    simp only [database, execute, h]

/-- A server to which nothing was written but the migration. -/
def migrated : TableServer := (database.migrate ⟨0, [], none⟩).2

end TableServer

/-! ## Rows with the same keys, and a count beyond the column -/

namespace Sample

/-- Noon on 1 March 2024. -/
def noon : Instant := (Instant.ofMillis? 1709294400000).getD .epoch

def bar (close : Decimal) (count : UInt64) : Bar :=
  { exchange := "binance", symbol := "BTCUSDT", interval := "1m", timestamp := noon
    «open» := (Decimal.ofUnits? 100 0).getD .zero
    high := (Decimal.ofUnits? 1105 1).getD .zero
    low := (Decimal.ofUnits? 95 0).getD .zero
    close := close
    volume := (Decimal.ofUnits? 125 1).getD .zero
    quoteVolume := Decimal.ofUnits? 1300 0
    tradeCount := some count
    extra := [] }

def close : Decimal := (Decimal.ofUnits? 101 0).getD .zero

def laterClose : Decimal := (Decimal.ofUnits? 102 0).getD .zero

def tick (symbol : String) (price : Decimal) : Tick :=
  { exchange := "binance", symbol, source := "binance_ws", timestamp := noon, price
    size := (Decimal.ofUnits? 1 0).getD .zero, side := some .buy, extra := [] }

/-- Each kind of row is written twice, the bar in two batches and the tick in one. -/
def rewritten : List Batch :=
  [.bars [bar close 1],
    .ticks [tick "ETHUSDT" close, tick "BTCUSDT" close, tick "ETHUSDT" laterClose],
    .bars [], .bars [bar laterClose 9223372036854775807]]

theorem rewritten_whole : ∀ b ∈ rewritten, b.Whole := by
  simp [rewritten, Batch.Whole, bar, tick]
  decide

/-- The bar and each tick as they were written last. -/
theorem rewritten_memory : Memory.empty.writeAll rewritten =
    ([1, 3, 0, 1], ⟨[bar laterClose 9223372036854775807],
      [tick "BTCUSDT" close, tick "ETHUSDT" laterClose]⟩) := by
  rfl

/-- More trades than the column can count. -/
def heavy : Bar := bar close 9223372036854775808

end Sample

/-- Of each key the row that was written last stands in both stores. -/
theorem sinks_agree_rewritten : ∃ s' bars ticks,
    TableServer.database.writeAll .migrated Sample.rewritten =
      ([.ok 1, .ok 3, .ok 0, .ok 1], s') ∧
    s'.tables = [barTable.holding bars, tickTable.holding ticks] ∧
    (ticks.map Row.given).Perm [tickCells (Sample.tick "BTCUSDT" Sample.close),
      tickCells (Sample.tick "ETHUSDT" Sample.laterClose)] ∧
    (bars.map Row.given).Perm
      [barCells (fun n => n.toNat) (Sample.bar Sample.laterClose 9223372036854775807)] := by
  obtain ⟨s', bars, ticks, hwrite, htables, -, -, hticks, -, hbars⟩ :=
    sinks_agree TableServer.database TableServer.tables TableServer.executes .migrated rfl
      Sample.rewritten Sample.rewritten_whole
  rw [Sample.rewritten_memory] at hwrite hticks hbars
  refine ⟨s', bars, ticks, hwrite, htables, hticks, hbars ?_⟩
  intro b hb n hn
  obtain rfl := List.mem_singleton.1 hb
  cases hn
  decide

/-- A count of `2 ^ 63` trades is kept in memory, and is negative in the table. -/
theorem sinks_differ_in_count :
    Sample.heavy.timestamp.Whole ∧ Sample.heavy.tradeCount = some 9223372036854775808 ∧
    (Memory.empty.writeAll [.bars [Sample.heavy]]).2.bars = [Sample.heavy] ∧
    ∃ row stamp, (TableServer.database.writeAll .migrated [.bars [Sample.heavy]]).2.tables =
        [barTable.holding [stamped row stamp], tickTable] ∧
      row.lookup "trade_count" = some (.bigint (-9223372036854775808)) ∧
      row ≠ barCells (fun n => n.toNat) Sample.heavy := by
  refine ⟨by decide, rfl, rfl, (Upsert.ofBar Sample.heavy).row, .timestamp 0, rfl, rfl, ?_⟩
  intro heq
  have hcount := congrArg (List.lookup "trade_count") heq
  cases hcount

end Store
end MarketFeed
