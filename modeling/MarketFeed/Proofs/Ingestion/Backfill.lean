import Mathlib.Data.Finset.Card
import MarketFeed.Proofs.Collector.Backfill
import MarketFeed.Proofs.CommandLine.Backfill
import MarketFeed.Proofs.Ingestion.Passes
import MarketFeed.Proofs.Market.Codes
import MarketFeed.Proofs.Text.Case

/-!
# MarketFeed.Proofs.Ingestion.Backfill

What a backfill into memory prints, asks for and keeps.

* `Http.Server.answer` — what comes of each request to a server.
* `Source` — a venue's history, as the program asks for it.
* `Answered`, `backfill_of_ready` — the pairs with their rows, up to the first one that fails.
* `places`, `counts_keep` — the bars in memory are as many as the places of the rows.
* `backfill_output` — all of it, from the arguments on.
-/

namespace MarketFeed

/-! ## Requests to a server -/

namespace Http.Server

variable {s : Server} {url : String} {parameters : List (String × String)}

/-- What comes of the request number `n` for an address, counted from zero. -/
def answer (s : Server) (url : String) (n : Nat) : Except String Response :=
  if (target? s.address url []).isSome then (s.replies.getD n .drop).response
  else .error "error sending request"

/-- Whether an address is the server's does not depend on the parameters. -/
theorem isSome_target? (s : Server) (url : String) (parameters : List (String × String)) :
    (target? s.address url parameters).isSome = (target? s.address url []).isSome := by
  simp [target?]

theorem get_answer : (s.get url parameters).1 = s.answer url 0 := by
  rw [get, answer, ← isSome_target? s url parameters]
  cases target? s.address url parameters with
  | none => rfl
  | some target => rcases s.replies with _ | ⟨r, rest⟩ <;> simp

theorem get_requests : (s.get url parameters).2.requests =
    s.requests ++ (target? s.address url parameters).toList := by
  rw [get]
  cases target? s.address url parameters with
  | none => simp
  | some target => rcases s.replies with _ | ⟨r, rest⟩ <;> simp

theorem get_address : (s.get url parameters).2.address = s.address := by
  rw [get]
  cases target? s.address url parameters with
  | none => rfl
  | some target => rcases s.replies with _ | ⟨r, rest⟩ <;> simp

/-- After a request that had an answer, the answers go on with the next one. -/
theorem answer_get {r : Response} (h : s.answer url 0 = .ok r) (n : Nat) :
    (s.get url parameters).2.answer url n = s.answer url (n + 1) := by
  obtain ⟨target, htarget⟩ : ∃ target, target? s.address url parameters = some target := by
    rw [← Option.isSome_iff_exists, isSome_target?]
    by_contra hnone
    rw [answer, if_neg hnone] at h
    cases h
  rw [answer, answer, get_address, get, htarget]
  rcases s.replies with _ | ⟨r, rest⟩ <;> simp

end Http.Server

namespace Ingestion

open Collector (Asked Failure World)

/-! ## What is asked for -/

/-- The history at a venue, as the program asks for it. -/
structure Source where
  server : Http.Server
  restBase : String
  lookback : UInt32

namespace Source

/-- What comes of the request number `n`, counted from zero. -/
def answer (v : Source) (n : Nat) : Except VenueError (List Binance.Kline) :=
  Binance.klinesOf (v.server.answer (Binance.klinesUrl v.restBase) n)

/-- What the request for a pair asks the server for; nothing if the address is not the server's. -/
def target? (v : Source) (pair : String × Interval) : Option String :=
  Http.target? v.server.address (Binance.klinesUrl v.restBase)
    [("symbol", pair.1), ("interval", pair.2.code),
      ("limit", toString (min v.lookback.toNat Binance.maxKlines))]

/-- The source after its first request. -/
def next (v : Source) (parameters : List (String × String)) : Source :=
  { v with server := (v.server.get (Binance.klinesUrl v.restBase) parameters).2 }

theorem answer_next {v : Source} {rows : List Binance.Kline} (h : v.answer 0 = .ok rows)
    (parameters : List (String × String)) (n : Nat) :
    (v.next parameters).answer n = v.answer (n + 1) := by
  rw [answer] at h
  cases hfirst : v.server.answer (Binance.klinesUrl v.restBase) 0 with
  | error e =>
    rw [hfirst] at h
    cases h
  | ok r => exact congrArg Binance.klinesOf (Http.Server.answer_get hfirst n)

theorem target?_next (v : Source) (parameters : List (String × String)) :
    (v.next parameters).target? = v.target? := by
  funext pair
  rw [target?, target?, next, Http.Server.get_address]

end Source

/-- The pairs are those of the first symbol, then those of the second one, and so on. -/
theorem getElem?_pairs {symbols : List String} {intervals : List Interval} {j k : Nat}
    {symbol : String} {interval : Interval} (hj : symbols[j]? = some symbol)
    (hk : intervals[k]? = some interval) :
    (pairs symbols intervals)[j * intervals.length + k]? =
      some (Text.upperText symbol, interval) := by
  have hlt := (List.getElem?_eq_some_iff.1 hk).1
  induction symbols generalizing j with
  | nil => cases hj
  | cons first symbols ih =>
    rw [pairs, List.flatMap_cons]
    cases j with
    | zero =>
      obtain rfl := Option.some.inj hj
      rw [List.getElem?_append_left (by simpa using hlt)]
      simp [hk]
    | succ j =>
      rw [List.getElem?_append_right (by rw [List.length_map]; lia), List.length_map,
        show (j + 1) * intervals.length + k - intervals.length = j * intervals.length + k by lia]
      exact ih hj

theorem length_pairs (symbols : List String) (intervals : List Interval) :
    (pairs symbols intervals).length = symbols.length * intervals.length := by
  simp [pairs, List.length_flatMap]

/-- All symbols of pairs are in upper case. -/
theorem upperText_of_mem_pairs {symbols : List String} {intervals : List Interval}
    {p : String × Interval} (h : p ∈ pairs symbols intervals) : Text.upperText p.1 = p.1 := by
  obtain ⟨symbol, -, hp⟩ := List.mem_flatMap.1 h
  obtain ⟨interval, -, rfl⟩ := List.mem_map.1 hp
  exact Text.upperText_upperText symbol

/-! ## What is printed -/

/-- The rows whose time is a moment. -/
def valid (rows : List Binance.Kline) : List Binance.Kline :=
  rows.filter fun row => Instant.Representable row.openTime

/-- A line for each pair with its rows. -/
def report (ps : List (String × Interval)) (done : List (List Binance.Kline)) : List String :=
  List.zipWith
    (fun p rows => p.1 ++ " " ++ p.2.code ++ ": " ++ toString (valid rows).length ++ " bars")
    ps done

/-- The places of the rows: symbol, interval and time. -/
def places (ps : List (String × Interval)) (done : List (List Binance.Kline)) :
    List (String × Interval × Int) :=
  (ps.zip done).flatMap fun x => (valid x.2).map fun row => (x.1.1, x.1.2, row.openTime)

/-- The pairs have rows, in their order, up to the first one that fails. -/
structure Answered (v : Source) (ps : List (String × Interval)) (done : List (List Binance.Kline))
    (failure : Option VenueError) : Prop where
  rows : ∀ n rows, done[n]? = some rows → v.answer n = .ok rows
  ended : (done.length = ps.length ∧ failure = none) ∨
    (done.length < ps.length ∧ ∃ e, v.answer done.length = .error e ∧ failure = some e)

/-- A first pair that has its rows, before others. -/
theorem Answered.cons {v : Source} {ps : List (String × Interval)} {p : String × Interval}
    {done : List (List Binance.Kline)} {rows : List Binance.Kline} {failure : Option VenueError}
    {parameters : List (String × String)} (hrows : v.answer 0 = .ok rows)
    (h : Answered (v.next parameters) ps done failure) :
    Answered v (p :: ps) (rows :: done) failure where
  rows n rows' hn := by
    cases n with
    | zero =>
      obtain rfl := Option.some.inj hn
      exact hrows
    | succ n => rw [← Source.answer_next hrows parameters, h.rows n rows' hn]
  ended := by
    rcases h.ended with ⟨hall, rfl⟩ | ⟨hlt, e, he, rfl⟩
    · exact .inl ⟨congrArg (· + 1) hall, rfl⟩
    · refine .inr ⟨Nat.succ_lt_succ hlt, e, ?_, rfl⟩
      rw [← he, Source.answer_next hrows parameters, List.length_cons]

/-- The bars of the rows that some pairs have. -/
def barsOf (ps : List (String × Interval)) (done : List (List Binance.Kline)) : List Bar :=
  (ps.zip done).flatMap fun x => Collector.binance.bars x.1.1 x.1.2 x.2

theorem klinesParameters_latest {p : String × Interval} (hp : Text.upperText p.1 = p.1)
    (lookback : UInt32) : Binance.klinesParameters p.1 (.latest p.2 lookback) =
      [("symbol", p.1), ("interval", p.2.code),
        ("limit", toString (min lookback.toNat Binance.maxKlines))] := by
  rw [Binance.klinesParameters, hp]
  rfl

theorem report_cons (p : String × Interval) (ps : List (String × Interval))
    (rows : List Binance.Kline) (done : List (List Binance.Kline)) :
    report (p :: ps) (rows :: done) =
      backfillLine p.1 p.2 (Collector.binance.bars p.1 p.2 rows).length :: report ps done := by
  have hlength : (Collector.binance.bars p.1 p.2 rows).length = (valid rows).length := by
    rw [valid, ← List.countP_eq_length_filter]
    exact Asked.length_bars ⟨p.1, .latest p.2 0, 0, .ok []⟩ rows
  rw [hlength]
  rfl

/-- The pairs are asked for one after another, and the memory keeps the bars of their rows. -/
theorem backfill_of_ready (lookback : UInt32) {restBase : String} {ps : List (String × Interval)}
    (hps : ∀ p ∈ ps, Text.upperText p.1 = p.1) {t : Timed Session} {m : Store.Memory}
    (h : Ready t.world m) (hbase : t.world.around.connector.config.restBase = restBase) :
    let v : Source := ⟨t.world.around.connector.server, restBase, lookback⟩
    ∃ done failure t', backfill lookback ps t =
        ((report ps done, failure.map Failure.venue), t') ∧
      Answered v ps done failure ∧
      Ready t'.world { m with bars := Store.upsertAll Bar.key (barsOf ps done) m.bars } ∧
      t'.world.around.connector.server.requests =
        v.server.requests ++ (ps.take (done.length + 1)).filterMap v.target? := by
  intro v
  induction ps generalizing t m with
  | nil => exact ⟨[], none, t, rfl, ⟨by simp, .inl ⟨rfl, rfl⟩⟩, h, by simp [v]⟩
  | cons p ps ih =>
    obtain ⟨symbol, interval⟩ := p
    obtain ⟨hfirst, hrest⟩ := List.forall_mem_cons.1 hps
    obtain ⟨t', hpass, hready, hconfig, hserver⟩ :=
      pass_of_ready h symbol (.latest interval lookback)
    let parameters := [("symbol", symbol), ("interval", interval.code),
      ("limit", toString (min lookback.toNat Binance.maxKlines))]
    have hreply : t.world.around.reply symbol (.latest interval lookback) =
        v.server.get (Binance.klinesUrl v.restBase) parameters := by
      rw [Services.reply, hbase, klinesParameters_latest hfirst]
    have hanswer : Binance.klinesOf (t.world.around.reply symbol (.latest interval lookback)).1 =
        v.answer 0 := by
      rw [hreply, Http.Server.get_answer]
      rfl
    have hnext : ⟨t'.world.around.connector.server, restBase, lookback⟩ = v.next parameters := by
      rw [hserver, hreply]
      rfl
    have hrequests : t'.world.around.connector.server.requests =
        v.server.requests ++ (v.target? (symbol, interval)).toList := by
      rw [hserver, hreply, Http.Server.get_requests]
      rfl
    rw [hanswer] at hpass hready
    rw [backfill, hpass]
    cases hzero : v.answer 0 with
    | error e =>
      rw [hzero] at hready
      refine ⟨[], some e, t', rfl, ⟨by simp, .inr ⟨by simp, e, hzero, rfl⟩⟩, hready, ?_⟩
      rw [hrequests]
      cases htarget : v.target? (symbol, interval) <;> simp [htarget]
    | ok rows =>
      rw [hzero] at hready
      obtain ⟨done, failure, t'', hbackfill, hanswered, hready', hrequests'⟩ :=
        ih hrest hready (hconfig ▸ hbase)
      rw [hnext] at hanswered hrequests'
      refine ⟨rows :: done, failure, t'', ?_, hanswered.cons hzero, ?_, ?_⟩
      · simp only [World.resultOf, hbackfill]
        rw [report_cons]
        rfl
      · rw [barsOf, List.zip_cons_cons, List.flatMap_cons, Store.upsertAll_append]
        exact hready'
      · rw [hrequests', Source.target?_next,
          show (v.next parameters).server.requests = t'.world.around.connector.server.requests from
            congrArg (fun u : Source => u.server.requests) hnext.symm, hrequests]
        cases htarget : v.target? (symbol, interval) <;> simp [htarget]

/-! ## What is kept -/

/-- The key of the bar at a place, if its time is a moment. -/
def keyAt (place : String × Interval × Int) : Option RowKey :=
  (Instant.ofMillis? place.2.2).map fun time =>
    ⟨"binance", place.1, place.2.1.code, time⟩

theorem keyAt_injective {a b : String × Interval × Int} {k : RowKey} (ha : keyAt a = some k)
    (hb : keyAt b = some k) : a = b := by
  obtain ⟨symbol, interval, ms⟩ := a
  obtain ⟨symbol', interval', ms'⟩ := b
  obtain ⟨time, htime, rfl⟩ := Option.map_eq_some_iff.1 ha
  obtain ⟨time', htime', hkey⟩ := Option.map_eq_some_iff.1 hb
  simp only [RowKey.mk.injEq] at hkey
  obtain ⟨-, rfl, hcode, rfl⟩ := hkey
  obtain rfl := Interval.injective_code hcode
  obtain rfl : ms = ms' :=
    (Instant.millis_of_ofMillis htime).symm.trans (Instant.millis_of_ofMillis htime')
  rfl

/-- The bars of a pair have the keys of its places. -/
theorem map_key_bars {p : String × Interval} (hp : Text.upperText p.1 = p.1)
    (rows : List Binance.Kline) :
    (Collector.binance.bars p.1 p.2 rows).map (fun bar => some bar.key) =
      (valid rows).map fun row => keyAt (p.1, p.2, row.openTime) := by
  let pass (rows : List Binance.Kline) : Asked := ⟨p.1, .latest p.2 0, 0, .ok rows⟩
  have hbars : Collector.binance.bars p.1 p.2 rows = rows.filterMap (pass []).bar? :=
    (pass rows).bars_eq
  rw [hbars, valid]
  induction rows with
  | nil => rfl
  | cons row rows ih =>
    have hrest := ih (pass rows).bars_eq
    cases hbar : (pass []).bar? row with
    | none =>
      have hin : ¬ Instant.Representable row.openTime := by
        rw [← (pass []).bar?_isSome, hbar]
        simp
      rw [List.filterMap_cons_none hbar, List.filter_cons_of_neg (by simpa using hin), hrest]
    | some bar =>
      have hin : Instant.Representable row.openTime := by
        rw [← (pass []).bar?_isSome, hbar]
        rfl
      have htells := Asked.tells hbar
      have hkey : keyAt (p.1, p.2, row.openTime) = some bar.key := by
        have hslot : ((pass []).slot row).symbol = p.1 := hp
        rw [Asked.key_of_tells htells, hslot, keyAt, show Instant.ofMillis? row.openTime =
          some bar.timestamp from htells.time]
        rfl
      rw [List.filterMap_cons_some hbar, List.filter_cons_of_pos (by simpa using hin),
        List.map_cons, List.map_cons, hrest, hkey]

theorem map_key_barsOf {ps : List (String × Interval)} (hps : ∀ p ∈ ps, Text.upperText p.1 = p.1)
    (done : List (List Binance.Kline)) :
    (barsOf ps done).map (fun bar => some bar.key) = (places ps done).map keyAt := by
  rw [barsOf, places, List.map_flatMap, List.map_flatMap]
  refine List.flatMap_congr fun x hx => ?_
  rw [map_key_bars (hps _ (List.of_mem_zip hx).1), List.map_map]
  rfl

/-- As many different ones are left where different ones are told apart. -/
theorem length_dedup_map {α β : Type} [DecidableEq α] [DecidableEq β] {f : α → β} {l : List α}
    (h : ∀ a ∈ l, ∀ b ∈ l, f a = f b → a = b) : (l.map f).dedup.length = l.dedup.length := by
  have himage : (l.map f).toFinset = l.toFinset.image f := by
    ext b
    simp
  rw [← List.card_toFinset, ← List.card_toFinset, himage]
  exact Finset.card_image_of_injOn fun a ha b hb => h a (by simpa using ha) b (by simpa using hb)

/-- The memory keeps one bar for each place. -/
theorem length_kept {ps : List (String × Interval)} (hps : ∀ p ∈ ps, Text.upperText p.1 = p.1)
    (done : List (List Binance.Kline)) :
    (Store.upsertAll Bar.key (barsOf ps done) []).length = (places ps done).dedup.length := by
  have hkeys : ((barsOf ps done).map Bar.key).map some = (places ps done).map keyAt := by
    rw [List.map_map, ← map_key_barsOf hps]
    rfl
  have hinjective : ∀ a ∈ places ps done, ∀ b ∈ places ps done, keyAt a = keyAt b → a = b := by
    intro a ha b hb hkey
    obtain ⟨bar, -, hbar⟩ : ∃ bar ∈ barsOf ps done, some bar.key = keyAt a := by
      rw [← List.mem_map, map_key_barsOf hps]
      exact List.mem_map_of_mem ha
    exact keyAt_injective hbar.symm (hkey ▸ hbar.symm)
  rw [Store.length_upsertAll_nil, ← length_dedup_map hinjective, ← hkeys,
    List.dedup_map_of_injective (Option.some_injective _), List.length_map]

/-- There are as many places as rows that were counted. -/
theorem length_places {ps : List (String × Interval)} {done : List (List Binance.Kline)}
    (h : done.length ≤ ps.length) :
    (places ps done).length = (done.map fun rows => (valid rows).length).sum := by
  induction done generalizing ps with
  | nil => simp [places]
  | cons rows done ih =>
    cases ps with
    | nil => cases h
    | cons p ps =>
      have hrest := ih (Nat.le_of_succ_le_succ h)
      rw [places] at hrest ⊢
      simp [hrest]

/-- As many places are left without repetitions as there are rows, or fewer if there are any. -/
theorem counts_keep {ps : List (String × Interval)} {done : List (List Binance.Kline)}
    (h : done.length ≤ ps.length) :
    (places ps done).dedup.length ≤ (done.map fun rows => (valid rows).length).sum ∧
      ((places ps done).dedup.length = (done.map fun rows => (valid rows).length).sum ↔
        (places ps done).Nodup) := by
  rw [← length_places h]
  have hsublist := List.dedup_sublist (places ps done)
  refine ⟨hsublist.length_le, fun heq => ?_, fun hnodup => ?_⟩
  · rw [← hsublist.eq_of_length heq]
    exact List.nodup_dedup _
  · rw [hnodup.dedup]

/-! ## The command -/

/-- What becomes of a backfill whose pairs have rows up to the first one that fails: all that the
servers see are the requests for these pairs and the one that failed. -/
structure Backfilled (v : Source) (ps : List (String × Interval))
    (done : List (List Binance.Kline)) (result : Outcome × Trace) : Prop where
  few : done.length ≤ ps.length
  answered : ∀ n rows, done[n]? = some rows → v.answer n = .ok rows
  requested : result.2 =
    ⟨v.server.requests ++ (ps.take (done.length + 1)).filterMap v.target?, [], [], []⟩
  failed : done.length < ps.length → ∃ e, v.answer done.length = .error e ∧
    result.1 = ⟨1, report ps done, some ("Error: " ++ e.message)⟩
  finished : done.length = ps.length → result.1 = ⟨0, report ps done ++
    ["Collected " ++ toString (places ps done).dedup.length ++ " bars and 0 ticks in memory"], none⟩

/-- The program can always have its connector, which has no grants yet. -/
theorem connector_new (i : CommandLine.Invocation) (server : Http.Server) (feed : Binance.Feed) :
    ∃ limiter : Limiter, limiter.recent = [] ∧
      Binance.Connector.new (connectorConfig i) server feed =
        .ok ⟨connectorConfig i, .new limiter, server, feed, 0, [], [], 0, [], none⟩ := by
  have hrate : 0 < (connectorConfig i).rateLimit.toNat := by
    change 0 < Binance.Config.default.rateLimit.toNat
    decide
  have hper : 0 < (Span.ofSeconds (connectorConfig i).rateWindowSeconds.toNat).toNanos := by
    change 0 < (Span.ofSeconds Binance.Config.default.rateWindowSeconds.toNat).toNanos
    decide
  refine ⟨⟨_, _, [], hrate, hper⟩, rfl, ?_⟩
  rw [Binance.Connector.new, Limiter.new, dif_pos hrate, dif_pos hper]

/-- A new program on a connector, with nothing in memory. -/
theorem ready_new (servers : Servers) {limiter : Limiter} (hrecent : limiter.recent = [])
    (config : Binance.Config) (feed : Binance.Feed) (relay : RelayConfig) :
    Ready (.new .default ⟨⟨config, .new limiter, servers.http, feed, 0, [], [], 0, [], none⟩,
      .memory .empty, relayOf servers relay⟩) .empty where
  jobs := rfl
  runs := rfl
  quiet := by
    refine ⟨rfl, rfl, rfl, ?_, fun _ => List.not_mem_nil, ⟨rfl, rfl, rfl, rfl⟩⟩
    change limiter.recent.length ≤ limiter.rate
    simp [hrecent]
  backend := rfl

theorem summary_memory (bars : List Bar) : summary (.memory ⟨bars, []⟩) =
    "Collected " ++ toString bars.length ++ " bars and 0 ticks in memory" := by
  simp only [summary, Backend.counts, List.length_nil, String.append_assoc]
  rfl

theorem performIn_backfill (servers : Servers) (interrupt : Option Interrupt)
    (symbols : List String) (intervals : List Interval) (lookback : UInt32)
    {connector : Binance.Connector} (h : Ready (.new .default
      ⟨connector, .memory .empty, relayOf servers .default⟩) .empty) :
    ∃ done, Backfilled ⟨connector.server, connector.config.restBase, lookback⟩
      (pairs symbols intervals) done
      (performIn servers interrupt connector (.memory .empty) true
        (.backfill symbols intervals lookback)) := by
  have hps : ∀ p ∈ pairs symbols intervals, Text.upperText p.1 = p.1 :=
    fun _ => upperText_of_mem_pairs
  obtain ⟨done, failure, t, hbackfill, hanswered, hready, hrequests⟩ :=
    backfill_of_ready lookback hps (t := ⟨0, .new .default
      ⟨connector, .memory .empty, relayOf servers .default⟩⟩) h rfl
  have hperform : perform servers interrupt connector (.memory .empty)
      (.backfill symbols intervals lookback) =
        ((report (pairs symbols intervals) done, (failure.map Failure.venue).map Failure.message),
          t.world.around) := by
    simp only [perform, hbackfill]
  refine ⟨done, ?_, hanswered.rows, ?_, fun hlt => ?_, fun hall => ?_⟩
  · rcases hanswered.ended with ⟨hall, -⟩ | ⟨hlt, -⟩ <;> omega
  · simp only [performIn, hperform]
    rw [hready.trace, hrequests]
    rfl
  · rcases hanswered.ended with ⟨hall, -⟩ | ⟨-, e, he, rfl⟩
    · omega
    · refine ⟨e, he, ?_⟩
      simp only [performIn, hperform]
      rfl
  · rcases hanswered.ended with ⟨-, rfl⟩ | ⟨hlt, -⟩
    · simp only [performIn, hperform, hready.backend]
      rw [← length_kept hps, ← summary_memory]
      rfl
    · omega

/-- A backfill into memory, of any symbols and intervals, against a venue that answers in any way:

* the pairs of a symbol in upper case and an interval, symbol by symbol, are asked for one after
  another, once each, up to the first one that fails, and nothing else is asked for;
* there is a line for each pair before that, with the number of its rows whose time is a moment;
* if one fails the program does; otherwise the last line tells how many different places the rows
  have, which are at most as many as the lines count, and as many only if no place comes twice. -/
theorem backfill_output (servers : Servers) (interrupt : Option Interrupt)
    (environment : List (String × String)) (arguments : List String)
    (databaseUrl restBase wsBase : Option String) (symbols : List String)
    (intervals : List Interval) (lookback : UInt32)
    (hread : CommandLine.Invocation.read environment arguments =
      .ok ⟨databaseUrl, true, restBase, wsBase, .backfill symbols intervals lookback⟩) :
    let ps := pairs symbols intervals
    let v : Source := ⟨servers.http, restBase.getD Binance.Config.default.restBase, lookback⟩
    (ps.length = symbols.length * intervals.length ∧
      ∀ j k symbol interval, symbols[j]? = some symbol → intervals[k]? = some interval →
        ps[j * intervals.length + k]? = some (Text.upperText symbol, interval)) ∧
    ∃ done, Backfilled v ps done (run servers interrupt environment arguments) ∧
      (places ps done).dedup.length ≤ (done.map fun rows => (valid rows).length).sum ∧
      ((places ps done).dedup.length = (done.map fun rows => (valid rows).length).sum ↔
        (places ps done).Nodup) := by
  intro ps v
  refine ⟨⟨length_pairs _ _, fun _ _ _ _ => getElem?_pairs⟩, ?_⟩
  let i : CommandLine.Invocation :=
    ⟨databaseUrl, true, restBase, wsBase, .backfill symbols intervals lookback⟩
  obtain ⟨limiter, hrecent, hnew⟩ := connector_new i servers.http
    (servers.streams.feed (connectorConfig i).wsBase)
  obtain ⟨done, hdone⟩ := performIn_backfill servers interrupt symbols intervals lookback
    (ready_new servers hrecent (connectorConfig i)
      (servers.streams.feed (connectorConfig i).wsBase) .default)
  refine ⟨done, ?_, counts_keep hdone.few⟩
  rw [run, hread]
  simp only [execute]
  rw [hnew]
  exact hdone

/-! ## One symbol that is given twice -/

namespace Sample

/-- The history of a symbol: one row. -/
def body : String :=
  "[[60000,\"1.5\",\"1.5\",\"1.5\",\"1.5\",\"2\",119999,\"3\",4,\"1\",\"1.5\",\"0\"]]"

/-- A venue that answers two requests with the same row. -/
def venue : Servers where
  http := .new Binance.Config.default.restBase
    (List.replicate 2 (.answer 200 (Text.bytesOfText body) none))
  streams := ⟨"", [], .closes, false⟩
  relayPort := 0
  relay := []
  databaseAddress := ""
  database := .new [] none

def source : Source := ⟨venue.http, Binance.Config.default.restBase, 500⟩

/-- The row that it answers with. -/
def rows : List Binance.Kline := ((source.answer 0).toOption).getD []

theorem answer_eq : ∀ n < 2, source.answer n = .ok rows := by
  have hread : ∀ n < 2, (source.answer n).toOption = some rows := by decide +kernel
  intro n hn
  have hsome := hread n hn
  cases hanswer : source.answer n with
  | error e => simp [hanswer, Except.toOption] at hsome
  | ok read =>
    rw [hanswer] at hsome
    rw [Option.some.inj hsome]

end Sample

/-- A symbol that is given in two spellings is asked for twice, and its row is kept once. -/
theorem backfill_output_twice :
    run Sample.venue none [] (CommandLine.backfillArguments ["btcusdt", "BTCUSDT"] ["1m"]) =
      (⟨0, ["BTCUSDT 1m: 1 bars", "BTCUSDT 1m: 1 bars",
        "Collected 1 bars and 0 ticks in memory"], none⟩,
      ⟨["/api/v3/klines?symbol=BTCUSDT&interval=1m&limit=500",
        "/api/v3/klines?symbol=BTCUSDT&interval=1m&limit=500"], [], [], []⟩) := by
  have hread : CommandLine.Invocation.read []
      (CommandLine.backfillArguments ["btcusdt", "BTCUSDT"] ["1m"]) =
        .ok ⟨none, true, none, none, .backfill ["btcusdt", "BTCUSDT"] [.minute 1] 500⟩ :=
    CommandLine.read_backfill (by decide) (by decide) (by decide) (by decide) (by rfl)
  obtain ⟨-, done, hdone, -, -⟩ := backfill_output Sample.venue none [] _ none none none
    ["btcusdt", "BTCUSDT"] [.minute 1] 500 hread
  change Backfilled Sample.source _ _ _ at hdone
  have hps : (pairs ["btcusdt", "BTCUSDT"] [.minute 1]).length = 2 := length_pairs _ _
  have hlength : done.length = 2 := by
    by_contra hne
    have hlt : done.length < 2 := Nat.lt_of_le_of_ne (hps ▸ hdone.few) hne
    obtain ⟨e, he, -⟩ := hdone.failed (hps.symm ▸ hlt)
    rw [Sample.answer_eq done.length hlt] at he
    cases he
  have hrows : done = [Sample.rows, Sample.rows] := by
    refine List.eq_replicate_iff.2 ⟨hlength, fun rows hmem => ?_⟩
    obtain ⟨n, hn, rfl⟩ := List.getElem_of_mem hmem
    have hanswer := hdone.answered n done[n] (List.getElem?_eq_getElem hn)
    rw [Sample.answer_eq n (hlength ▸ hn)] at hanswer
    exact (Except.ok.inj hanswer).symm
  subst hrows
  have hreport : report (pairs ["btcusdt", "BTCUSDT"] [.minute 1]) [Sample.rows, Sample.rows] =
      ["BTCUSDT 1m: 1 bars", "BTCUSDT 1m: 1 bars"] := by decide +kernel
  have hplaces : (places (pairs ["btcusdt", "BTCUSDT"] [.minute 1])
      [Sample.rows, Sample.rows]).dedup.length = 1 := by decide +kernel
  have hrequests : Sample.source.server.requests ++ ((pairs ["btcusdt", "BTCUSDT"]
      [.minute 1]).take ([Sample.rows, Sample.rows].length + 1)).filterMap Sample.source.target? =
        ["/api/v3/klines?symbol=BTCUSDT&interval=1m&limit=500",
          "/api/v3/klines?symbol=BTCUSDT&interval=1m&limit=500"] := by decide +kernel
  have houtcome := hdone.finished hps.symm
  have htrace := hdone.requested
  rw [hreport, hplaces] at houtcome
  rw [hrequests] at htrace
  exact Prod.ext houtcome htrace

end Ingestion
end MarketFeed
