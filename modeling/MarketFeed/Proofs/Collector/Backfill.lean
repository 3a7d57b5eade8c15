import MarketFeed.Proofs.Collector.Passes
import MarketFeed.Proofs.Store.Upsert
import MarketFeed.Proofs.Tasks.Numbered
import MarketFeed.Proofs.Time.Instant

/-!
# MarketFeed.Proofs.Collector.Backfill

What a store in memory keeps of the history that a collector fetches again and again.

* `Asked` — a pass that is asked for, and what comes of its fetch; `Asked.source` — a source with
  these answers, `Asked.made` — the collector after some passes.
* `Slot`, `Tells` — the place of a row's bar, and a bar that says what is known of a row.
* `Asked.latest?`, `Asked.stored_of_tells` — the row that was fetched last for a place, whose bar is
  kept there.
* `backfill_converges` — the passes of every collector, with any answers.
-/

namespace MarketFeed
namespace Collector

/-! ## Sources -/

/-- What is next under a name. -/
def Queues.under {α : Type} (q : Queues α) (name : String) : List α :=
  ((q.entries.find? (·.1 = name)).map Prod.snd).getD []

theorem Queues.pop_of_under {α : Type} {q : Queues α} {name : String} {a : α} {rest : List α}
    (h : q.under name = a :: rest) :
    ∃ q' : Queues α, q.pop name = (some a, q') ∧ q'.under name = rest ∧
      ∀ other, other ≠ name → q'.under other = q.under other := by
  unfold under at h
  cases hfind : q.entries.find? (·.1 = name) with
  | none =>
    rw [hfind] at h
    cases h
  | some e =>
    obtain ⟨found, entries⟩ := e
    rw [hfind] at h
    obtain rfl : entries = a :: rest := h
    refine ⟨_, by rw [pop, hfind], ?_, fun other hne => ?_⟩
    · have hself := find?_update_self Prod.fst (f := fun _ => (name, rest)) (fun _ _ => rfl) hfind
      rw [under, hself]
      rfl
    · have hother := find?_update_of_ne Prod.fst (l := q.entries) (f := fun _ => (name, rest))
        (fun _ _ => rfl) hne
      rw [under, hother]
      rfl

/-- A pass over a symbol's history that is asked for, and what comes of its fetch. -/
structure Asked where
  symbol : String
  request : HistoryRequest
  delay : Nat
  answer : Except VenueError (List Binance.Kline)

namespace Asked

def fetch (p : Asked) : ScriptedFetch Binance.Kline := ⟨p.delay, p.answer⟩

/-- A source with the answers of some passes. -/
def source (ps : List Asked) : Queues (ScriptedFetch Binance.Kline) :=
  ⟨ps.map fun p => (p.symbol, (ps.filter (·.symbol = p.symbol)).map fetch)⟩

/-- A source gives the passes their answers, in their order. -/
def Gives (q : Queues (ScriptedFetch Binance.Kline)) (ps : List Asked) : Prop :=
  ∀ name, q.under name = (ps.filter (·.symbol = name)).map fetch

theorem source_gives (ps : List Asked) : Gives (source ps) ps := by
  intro name
  have hfind (l : List Asked) : (((l.map fun p =>
      (p.symbol, (ps.filter (·.symbol = p.symbol)).map fetch)).find? (·.1 = name)).map
        Prod.snd).getD [] =
      if l.any (·.symbol = name) then (ps.filter (·.symbol = name)).map fetch else [] := by
    induction l with
    | nil => rfl
    | cons p l ih =>
      by_cases hp : p.symbol = name
      · simp [hp]
      · simpa [hp] using ih
  rw [Queues.under, source, hfind]
  split
  · rfl
  · rename_i hnone
    have hempty : ps.filter (·.symbol = name) = [] := by
      simpa [List.filter_eq_nil_iff] using hnone
    rw [hempty]
    rfl

theorem Gives.pop {q : Queues (ScriptedFetch Binance.Kline)} {p : Asked} {ps : List Asked}
    (h : Gives q (p :: ps)) : ∃ q', q.pop p.symbol = (some p.fetch, q') ∧ Gives q' ps := by
  have hfirst : q.under p.symbol = p.fetch :: (ps.filter (·.symbol = p.symbol)).map fetch := by
    rw [h p.symbol, List.filter_cons_of_pos (by simp), List.map_cons]
  obtain ⟨q', hpop, hsame, hothers⟩ := Queues.pop_of_under hfirst
  refine ⟨q', hpop, fun name => ?_⟩
  by_cases hname : p.symbol = name
  · rw [← hname, hsame]
  · rw [hothers name (Ne.symm hname), h name, List.filter_cons_of_neg (by simpa using hname)]

/-! ## Passes -/

/-- A collector whose source has the answers of some passes; nothing is known of the rest. -/
structure Ready (ps : List Asked)
    (t : Timed (World (Script Binance.Kline Binance.Trade) String)) : Prop where
  idle : t.world.Idle
  gives : Gives t.world.around.fetches ps

/-- A pass that is made: its result, and the collector after it. -/
def make (hasDownstream : Bool) (p : Asked)
    (t : Timed (World (Script Binance.Kline Binance.Trade) String)) :
    Except Failure Nat × Timed (World (Script Binance.Kline Binance.Trade) String) :=
  World.pass binance (Script.surroundings binance.display hasDownstream) Script.system t p.symbol
    p.request

/-- The bars of the rows that were fetched; none if the fetch failed. -/
def bars (p : Asked) : List Bar :=
  match p.answer with
  | .ok rows => binance.bars p.symbol p.request.interval rows
  | .error _ => []

theorem Ready.make {p : Asked} {ps : List Asked}
    {t : Timed (World (Script Binance.Kline Binance.Trade) String)} (h : Ready (p :: ps) t)
    (hasDownstream : Bool) :
    (p.make hasDownstream t).1 =
        World.resultOf binance p.symbol p.request.interval p.answer ∧
      Ready ps (p.make hasDownstream t).2 ∧
      (p.make hasDownstream t).2.world.around.memory =
        World.keptOf binance p.symbol p.request.interval t.world.around.memory p.answer := by
  obtain ⟨q', hpop, hgives⟩ := h.gives.pop
  obtain ⟨t', hpass, hidle, hfetches, hmemory⟩ :=
    World.pass_of_idle binance hasDownstream h.idle p.symbol p.request
  rw [show binance.display p.symbol = p.symbol from rfl, hpop] at hpass hfetches hmemory
  rw [Asked.make, hpass]
  exact ⟨rfl, ⟨hidle, hfetches ▸ hgives⟩, hmemory⟩

/-- The collector after some passes, one after another. -/
def made (hasDownstream : Bool) (ps : List Asked)
    (t : Timed (World (Script Binance.Kline Binance.Trade) String)) :
    Timed (World (Script Binance.Kline Binance.Trade) String) :=
  ps.foldl (fun t p => (p.make hasDownstream t).2) t

theorem made_append (hasDownstream : Bool) (ps ps' : List Asked)
    (t : Timed (World (Script Binance.Kline Binance.Trade) String)) :
    made hasDownstream (ps ++ ps') t = made hasDownstream ps' (made hasDownstream ps t) :=
  List.foldl_append

theorem keptOf_bars (p : Asked) (memory : Store.Memory) :
    World.keptOf binance p.symbol p.request.interval memory p.answer =
      { memory with bars := Store.upsertAll Bar.key p.bars memory.bars } := by
  rw [bars]
  cases p.answer <;> rfl

/-- What some passes leave in the store: all their bars were put in, one after another. -/
theorem Ready.made {ps rest : List Asked}
    {t : Timed (World (Script Binance.Kline Binance.Trade) String)} (h : Ready (ps ++ rest) t)
    (hasDownstream : Bool) :
    Ready rest (made hasDownstream ps t) ∧
      (made hasDownstream ps t).world.around.memory = { t.world.around.memory with
        bars := Store.upsertAll Bar.key (ps.flatMap bars) t.world.around.memory.bars } := by
  induction ps generalizing t with
  | nil => exact ⟨h, rfl⟩
  | cons p ps ih =>
    obtain ⟨-, hready, hmemory⟩ := h.make hasDownstream
    obtain ⟨hready', hmemory'⟩ := ih hready
    refine ⟨hready', hmemory'.trans ?_⟩
    rw [hmemory, keptOf_bars, List.flatMap_cons, Store.upsertAll_append]

end Asked

/-! ## Rows and their bars -/

/-- The place of a bar: its symbol, the code of its interval, and its time in milliseconds. -/
structure Slot where
  symbol : String
  interval : String
  openTime : Int
  deriving DecidableEq

def slotOf (b : Bar) : Slot := ⟨b.symbol, b.interval, b.timestamp.millis⟩

/-- A bar says what is known of a row. -/
structure Tells (bar : Bar) (slot : Slot) (row : Binance.Kline) : Prop where
  exchange : bar.exchange = "binance"
  symbol : bar.symbol = slot.symbol
  interval : bar.interval = slot.interval
  time : Instant.ofMillis? slot.openTime = some bar.timestamp
  millis : bar.timestamp.millis = slot.openTime
  «open» : bar.open = row.open
  high : bar.high = row.high
  low : bar.low = row.low
  close : bar.close = row.close
  volume : bar.volume = row.volume
  quoteVolume : bar.quoteVolume = some row.quoteVolume
  tradeCount : bar.tradeCount = some row.tradeCount
  extra : bar.extra = .ofList [("close_time", .ofInt row.closeTime),
    ("taker_buy_base_volume", .ofDecimal row.takerBuyBaseVolume),
    ("taker_buy_quote_volume", .ofDecimal row.takerBuyQuoteVolume)]

/-- The place of a row's bar, which need not be a moment. -/
def Asked.slot (p : Asked) (row : Binance.Kline) : Slot :=
  ⟨Text.upperText p.symbol, p.request.interval.code, row.openTime⟩

/-- The bar of a row; none if its time is no moment. -/
def Asked.bar? (p : Asked) (row : Binance.Kline) : Option Bar :=
  (row.toBar p.symbol p.request.interval).toOption

theorem Asked.tells {p : Asked} {row : Binance.Kline} {bar : Bar} (h : p.bar? row = some bar) :
    Tells bar (p.slot row) row := by
  unfold bar? Binance.Kline.toBar Instant.ofMillis at h
  cases htime : Instant.ofMillis? row.openTime with
  | none => simp [htime, Except.map, Except.toOption] at h
  | some time =>
    obtain rfl : _ = bar := by simpa [htime, Except.map, Except.toOption] using h
    exact ⟨rfl, rfl, rfl, htime, Instant.millis_of_ofMillis htime, rfl, rfl, rfl, rfl, rfl, rfl,
      rfl, rfl⟩

theorem Asked.bar?_isSome (p : Asked) (row : Binance.Kline) :
    (p.bar? row).isSome ↔ Instant.Representable row.openTime := by
  rw [← Instant.ofMillis_isSome, bar?, Binance.Kline.toBar, Instant.ofMillis]
  cases Instant.ofMillis? row.openTime <;> simp [Except.map, Except.toOption]

namespace Asked

/-- The rows that were fetched; none if the fetch failed. -/
def rows (p : Asked) : List Binance.Kline :=
  match p.answer with
  | .ok rows => rows
  | .error _ => []

theorem bars_eq (p : Asked) : p.bars = p.rows.filterMap p.bar? := by
  rw [bars, rows]
  cases p.answer with
  | error e => rfl
  | ok rows =>
    refine List.filterMap_congr fun row _ => ?_
    rw [bar?, show binance.toBar row p.symbol p.request.interval =
      row.toBar p.symbol p.request.interval from rfl]
    cases row.toBar p.symbol p.request.interval <;> rfl

/-- All rows that some passes fetched, oldest first, with their passes. -/
def fetched (ps : List Asked) : List (Asked × Binance.Kline) :=
  ps.flatMap fun p => p.rows.map fun row => (p, row)

/-- The row that was fetched last for a place. -/
def latest? (ps : List Asked) (slot : Slot) : Option (Asked × Binance.Kline) :=
  (fetched ps).reverse.find? fun x => x.1.slot x.2 = slot

theorem flatMap_bars (ps : List Asked) :
    ps.flatMap bars = (fetched ps).filterMap fun x => x.1.bar? x.2 := by
  rw [fetched, List.filterMap_flatMap]
  refine List.flatMap_congr fun p _ => ?_
  rw [bars_eq, List.filterMap_map]
  rfl

theorem slot_of_latest {ps : List Asked} {slot : Slot} {p : Asked} {row : Binance.Kline}
    (h : latest? ps slot = some (p, row)) : p.slot row = slot := by
  simpa using List.find?_some h

theorem mem_fetched {ps : List Asked} {p : Asked} {row : Binance.Kline} :
    (p, row) ∈ fetched ps ↔ p ∈ ps ∧ row ∈ p.rows := by
  simp [fetched]

/-- A row that was fetched has its place taken by the last one. -/
theorem exists_latest {ps : List Asked} {p : Asked} {row : Binance.Kline} (hp : p ∈ ps)
    (hrow : row ∈ p.rows) : ∃ last, latest? ps (p.slot row) = some last := by
  rw [← Option.isSome_iff_exists, latest?, List.find?_isSome]
  exact ⟨(p, row), List.mem_reverse.2 (mem_fetched.2 ⟨hp, hrow⟩), decide_eq_true rfl⟩

theorem key_of_tells {bar : Bar} {slot : Slot} {row : Binance.Kline} (h : Tells bar slot row) :
    bar.key = ⟨"binance", slot.symbol, slot.interval, bar.timestamp⟩ := by
  rw [Bar.key, h.exchange, h.symbol, h.interval]

theorem slotOf_tells {bar : Bar} {slot : Slot} {row : Binance.Kline} (h : Tells bar slot row) :
    slotOf bar = slot := by
  rw [slotOf, h.symbol, h.interval, h.millis]

/-- Bars of rows have one key if and only if they have one place. -/
theorem key_iff_slot {a b : Bar} {slot slot' : Slot} {row row' : Binance.Kline}
    (ha : Tells a slot row) (hb : Tells b slot' row') : a.key = b.key ↔ slot = slot' := by
  rw [key_of_tells ha, key_of_tells hb]
  constructor
  · intro h
    simp only [RowKey.mk.injEq] at h
    obtain ⟨-, hsymbol, hinterval, htime⟩ := h
    have hmillis : slot.openTime = slot'.openTime := by rw [← ha.millis, htime, hb.millis]
    obtain ⟨symbol, interval, openTime⟩ := slot
    obtain ⟨symbol', interval', openTime'⟩ := slot'
    obtain rfl : symbol = symbol' := hsymbol
    obtain rfl : interval = interval' := hinterval
    obtain rfl : openTime = openTime' := hmillis
    rfl
  · rintro rfl
    rw [Option.some.inj (ha.time.symm.trans hb.time)]

/-- What the bars of some passes leave under the key of a row's bar: the bar of the last row for its
place. -/
theorem stored_of_tells {ps : List Asked} {bar : Bar} {slot : Slot} {row : Binance.Kline}
    (h : Tells bar slot row) :
    Store.stored? Bar.key (ps.flatMap bars).reverse bar.key =
      (latest? ps slot).bind fun x => x.1.bar? x.2 := by
  rw [flatMap_bars, ← List.filterMap_reverse, Store.stored?, List.find?_filterMap, latest?]
  have hsame (x : Asked × Binance.Kline) :
      ((x.1.bar? x.2).any fun b => b.key = bar.key) = decide (x.1.slot x.2 = slot) := by
    cases hbar : x.1.bar? x.2 with
    | some b => simp [key_iff_slot (tells hbar) h]
    | none =>
      -- the place of a row without a bar is none of a bar's
      refine (decide_eq_false ?_).symm
      rintro rfl
      have hsome : (Instant.ofMillis? x.2.openTime).isSome :=
        Option.isSome_iff_exists.2 ⟨_, h.time⟩
      rw [Instant.ofMillis_isSome, ← bar?_isSome, hbar] at hsome
      cases hsome
  simp only [hsame]

end Asked

/-- What a store keeps after some passes: one bar for each place for which a row with a valid time
was fetched, that of the last such row, and nothing else. -/
structure Converged (ps : List Asked) (bars : List Bar) : Prop where
  kept : ∀ p ∈ ps, ∀ rows, p.answer = .ok rows → ∀ row ∈ rows,
    Instant.Representable row.openTime → ∃ p' row' bar,
      Asked.latest? ps (p.slot row) = some (p', row') ∧
      bars.filter (slotOf · = p.slot row) = [bar] ∧ Tells bar (p.slot row) row' ∧
      row'.toBar p'.symbol p'.request.interval = .ok bar
  only : ∀ bar ∈ bars, ∃ p ∈ ps, ∃ rows, p.answer = .ok rows ∧ ∃ row ∈ rows,
    p.slot row = slotOf bar ∧ Instant.Representable row.openTime

namespace Asked

/-- What is left of some passes is the bar of a row of theirs. -/
theorem tells_of_mem {ps : List Asked} {bar : Bar}
    (h : bar ∈ Store.upsertAll Bar.key (ps.flatMap bars) []) :
    ∃ p ∈ ps, ∃ row ∈ p.rows, Tells bar (p.slot row) row := by
  have hmem := (Store.InOrder.mem_upsertAll .nil h).resolve_right List.not_mem_nil
  rw [flatMap_bars] at hmem
  obtain ⟨⟨p, row⟩, hx, hbar⟩ := List.mem_filterMap.1 hmem
  exact ⟨p, (mem_fetched.1 hx).1, row, (mem_fetched.1 hx).2, tells hbar⟩

theorem converged (ps : List Asked) :
    Converged ps (Store.upsertAll Bar.key (ps.flatMap bars) []) where
  kept := by
    intro p hp rows hanswer row hrow hin
    have hrows : row ∈ p.rows := by rwa [Asked.rows, hanswer]
    obtain ⟨own, hown⟩ := Option.isSome_iff_exists.1 ((bar?_isSome p row).2 hin)
    obtain ⟨⟨p', row'⟩, hlatest⟩ := exists_latest hp hrows
    have hslot := slot_of_latest hlatest
    have hin' : Instant.Representable row'.openTime := by
      rwa [show row'.openTime = row.openTime from congrArg Slot.openTime hslot]
    obtain ⟨bar, hbar⟩ := Option.isSome_iff_exists.1 ((bar?_isSome p' row').2 hin')
    have htells : Tells bar (p.slot row) row' := hslot ▸ tells hbar
    have horder : Store.InOrder Bar.key (Store.upsertAll Bar.key (ps.flatMap bars) []) :=
      Store.InOrder.upsertAll .nil _
    have hstored : Store.stored? Bar.key (Store.upsertAll Bar.key (ps.flatMap bars) []) bar.key =
        some bar := by
      rw [Store.InOrder.stored_upsertAll .nil, stored_of_tells htells, hlatest, Option.bind_some,
        hbar]
      rfl
    refine ⟨p', row', bar, hlatest, ?_, htells, ?_⟩
    · refine horder.filter_eq_singleton (horder.stored_iff.1 hstored).1 fun b hb => ?_
      obtain ⟨q, -, r, -, hq⟩ := tells_of_mem hb
      rw [decide_eq_true_eq, slotOf_tells hq, key_iff_slot hq htells]
    · unfold bar? at hbar
      cases hto : row'.toBar p'.symbol p'.request.interval with
      | ok b =>
        rw [hto] at hbar
        cases hbar
        rfl
      | error e =>
        rw [hto] at hbar
        cases hbar
  only := by
    intro bar hbar
    obtain ⟨p, hp, row, hrow, htells⟩ := tells_of_mem hbar
    cases hanswer : p.answer with
    | error e =>
      rw [rows, hanswer] at hrow
      cases hrow
    | ok l =>
      rw [rows, hanswer] at hrow
      refine ⟨p, hp, l, hanswer, row, hrow, (slotOf_tells htells).symm, ?_⟩
      rw [← Instant.ofMillis_isSome]
      exact Option.isSome_iff_exists.2 ⟨_, htells.time⟩

theorem length_bars (p : Asked) (rows : List Binance.Kline) :
    (binance.bars p.symbol p.request.interval rows).length =
      rows.countP fun row => Instant.Representable row.openTime := by
  have hbars : binance.bars p.symbol p.request.interval rows = rows.filterMap p.bar? := by
    have hrows := bars_eq { p with answer := .ok rows }
    exact hrows
  rw [hbars, List.length_filterMap_eq_countP]
  exact List.countP_congr fun row _ => by rw [bar?_isSome, decide_eq_true_eq]

/-- A new collector whose source has the answers of some passes, and whose store does not refuse. -/
def begin (ps : List Asked) (config : Config String)
    (openings : Queues (ScriptedOpening Binance.Trade))
    (tickFailures : Queues (Option StoreError))
    (publications : Option (Queues (Option String))) (start : Nat) :
    Timed (World (Script Binance.Kline Binance.Trade) String) :=
  ⟨start, .new config (.new (source ps) openings .none tickFailures publications)⟩

end Asked

/-- The history that a collector fetches in passes, one after another, of any symbols and with any
answers, each after any time, with a store in memory; after every number of passes:

* the next pass fails as its fetch fails, and then the store is as it was; otherwise it tells the
  number of its rows with a valid time;
* the store keeps one bar for each place for which a row with a valid time was fetched, that of the
  last row for the place, with its time and all its decimals, and nothing else. -/
theorem backfill_converges (ps : List Asked) (config : Config String)
    (openings : Queues (ScriptedOpening Binance.Trade)) (tickFailures : Queues (Option StoreError))
    (publications : Option (Queues (Option String))) (hasDownstream : Bool) (start n : Nat) :
    let after n := Asked.made hasDownstream (ps.take n)
      (Asked.begin ps config openings tickFailures publications start)
    (∀ p, ps[n]? = some p → after (n + 1) = (p.make hasDownstream (after n)).2 ∧
      (∀ e, p.answer = .error e → (p.make hasDownstream (after n)).1 = .error (.venue e) ∧
        (after (n + 1)).world.around.memory = (after n).world.around.memory) ∧
      ∀ rows, p.answer = .ok rows → (p.make hasDownstream (after n)).1 =
        .ok (rows.countP fun row => Instant.Representable row.openTime)) ∧
    Converged (ps.take n) (after n).world.around.memory.bars := by
  intro after
  have hbegin : Asked.Ready ps
      (Asked.begin ps config openings tickFailures publications start) :=
    ⟨⟨rfl, rfl, rfl, rfl⟩, Asked.source_gives ps⟩
  have hready (n : Nat) : Asked.Ready (ps.drop n) (after n) ∧
      (after n).world.around.memory.bars =
        Store.upsertAll Bar.key ((ps.take n).flatMap Asked.bars) [] := by
    rw [← List.take_append_drop n ps] at hbegin
    obtain ⟨hrest, hmemory⟩ := hbegin.made hasDownstream
    rw [List.take_append_drop n ps] at hrest hmemory
    exact ⟨hrest, congrArg Store.Memory.bars hmemory⟩
  refine ⟨fun p hp => ?_, ?_⟩
  · obtain ⟨hn, rfl⟩ := List.getElem?_eq_some_iff.1 hp
    have hnext : after (n + 1) = (ps[n].make hasDownstream (after n)).2 := by
      change Asked.made hasDownstream (ps.take (n + 1)) _ = _
      rw [List.take_succ_eq_append_getElem hn, Asked.made_append]
      rfl
    have hrest := (hready n).1
    rw [List.drop_eq_getElem_cons hn] at hrest
    obtain ⟨hresult, -, hmemory⟩ := hrest.make hasDownstream
    refine ⟨hnext, fun e he => ?_, fun rows hrows => ?_⟩
    · rw [he] at hresult hmemory
      exact ⟨hresult, hnext ▸ hmemory⟩
    · rw [hrows] at hresult
      rw [hresult, ← Asked.length_bars ps[n]]
      rfl
  · rw [(hready n).2]
    exact Asked.converged _

/-! ## A symbol that is fetched three times -/

namespace Sample

/-- A row with one price throughout. -/
def candle (openTime : Int) (price : Decimal) : Binance.Kline :=
  ⟨openTime, price, price, price, price, price, openTime + 59999, price, 3, price, price⟩

def cheap : Decimal := (Decimal.ofUnits? 1000 1).getD .zero

def dear : Decimal := (Decimal.ofUnits? 10010 2).getD .zero

/-- Three rows, one of them without a valid time. -/
def early : Asked :=
  ⟨"btcusdt", .latest (.minute 1) 3, 7,
    .ok [candle 60000 cheap, candle 9000000000000000 cheap, candle 0 cheap]⟩

def refusal : Asked := ⟨"BTCUSDT", .latest (.minute 1) 3, 0, .error .notConnected⟩

/-- The first of the rows again, with another price. -/
def late : Asked := ⟨"BTCUSDT", .latest (.minute 1) 3, 0, .ok [candle 60000 dear]⟩

theorem latest_candles :
    (Asked.latest? [early, refusal, late] (early.slot (candle 60000 cheap))).map Prod.snd =
        some (candle 60000 dear) ∧
      (Asked.latest? [early, refusal, late] (early.slot (candle 0 cheap))).map Prod.snd =
        some (candle 0 cheap) := by
  decide +kernel

end Sample

/-- A row is fetched again with another price, which it has in the end. The row beside it stays, and
nothing is kept at an invalid time. -/
theorem backfill_converges_again :
    let after n := Asked.made false ([Sample.early, Sample.refusal, Sample.late].take n)
      (Asked.begin [Sample.early, Sample.refusal, Sample.late] .default .none .none none 0)
    (Sample.early.make false (after 0)).1 = .ok 2 ∧
    (Sample.refusal.make false (after 1)).1 = .error (.venue .notConnected) ∧
    (after 2).world.around.memory = (after 1).world.around.memory ∧
    (Sample.late.make false (after 2)).1 = .ok 1 ∧
    (∃ bar, (after 3).world.around.memory.bars.filter
        (slotOf · = Sample.early.slot (Sample.candle 60000 Sample.cheap)) = [bar] ∧
      bar.close = Sample.dear) ∧
    (∃ bar, (after 3).world.around.memory.bars.filter
        (slotOf · = Sample.early.slot (Sample.candle 0 Sample.cheap)) = [bar] ∧
      bar.close = Sample.cheap) ∧
    ∀ bar ∈ (after 3).world.around.memory.bars, bar.timestamp.millis ≠ 9000000000000000 := by
  intro after
  have hall (n : Nat) := backfill_converges [Sample.early, Sample.refusal, Sample.late] .default
    .none .none none false 0 n
  obtain ⟨hnext₀, -⟩ := hall 0
  obtain ⟨hnext₁, -⟩ := hall 1
  obtain ⟨hnext₂, -⟩ := hall 2
  obtain ⟨-, hkept, honly⟩ := hall 3
  obtain ⟨-, -, hearly⟩ := hnext₀ Sample.early rfl
  obtain ⟨-, hrefusal, -⟩ := hnext₁ Sample.refusal rfl
  obtain ⟨-, -, hlate⟩ := hnext₂ Sample.late rfl
  have hbar (row row' : Binance.Kline)
      (hrow : row ∈ [Sample.candle 60000 Sample.cheap,
        Sample.candle 9000000000000000 Sample.cheap, Sample.candle 0 Sample.cheap])
      (hin : Instant.Representable row.openTime)
      (hlatest : (Asked.latest? [Sample.early, Sample.refusal, Sample.late]
        (Sample.early.slot row)).map Prod.snd = some row') :
      ∃ bar, (after 3).world.around.memory.bars.filter
        (slotOf · = Sample.early.slot row) = [bar] ∧ bar.close = row'.close := by
    obtain ⟨p, last, bar, hlast, hfilter, htells, -⟩ :=
      hkept Sample.early List.mem_cons_self _ rfl row hrow hin
    rw [show [Sample.early, Sample.refusal, Sample.late].take 3 =
      [Sample.early, Sample.refusal, Sample.late] from rfl] at hlast
    rw [hlast] at hlatest
    cases hlatest
    exact ⟨bar, hfilter, htells.close⟩
  refine ⟨hearly _ rfl, (hrefusal _ rfl).1, (hrefusal _ rfl).2, hlate _ rfl, ?_, ?_, ?_⟩
  · exact hbar _ _ (by simp) (by decide) Sample.latest_candles.1
  · exact hbar _ _ (by simp) (by decide) Sample.latest_candles.2
  · intro bar hmem hmillis
    obtain ⟨p, -, rows, -, row, -, hslot, hin⟩ := honly bar hmem
    have htime : row.openTime = 9000000000000000 :=
      (congrArg Slot.openTime hslot).trans hmillis
    rw [htime] at hin
    exact absurd hin (by decide)

end Collector
end MarketFeed
