import MarketFeed.Collector.Normalize
import MarketFeed.Market.History
import MarketFeed.Store.Error
import MarketFeed.Tasks.Channel
import MarketFeed.Venue.Error

/-!
# MarketFeed.Collector.Surroundings

What a collector works with. Here `ι` names the instruments of a venue, `ρ` are its rows of
history, `τ` its trades, and `σ` is the state of everything around the collector.

* `Venue` — how the venue names and delivers things, and their canonical forms.
* `Surroundings` — where rows and trades come from and where they go.
* `gather` — the trades that wait for their receiver.
-/

namespace MarketFeed
namespace Collector

structure Venue (ι ρ τ : Type) where
  display : ι → String
  toBar : ρ → ι → Interval → Except OutOfRange Bar
  /-- None for what is not a trade. -/
  toTick : τ → ι → Except OutOfRange (Option Tick)

namespace Venue

variable {ι ρ τ : Type} (V : Venue ι ρ τ)

/-- The bars of some rows; a row without a valid time is skipped. -/
def bars (instrument : ι) (interval : Interval) (rows : List ρ) : List Bar :=
  rows.filterMap fun r =>
    match V.toBar r instrument interval with
    | .ok b => some b
    | .error _ => none

/-- The ticks of some trades; what is no trade or has no valid time is skipped. -/
def ticks (instrument : ι) (trades : List τ) : List Tick :=
  trades.filterMap fun t =>
    match V.toTick t instrument with
    | .ok tick => tick
    | .error _ => none

end Venue

/-- Binance: instruments are symbols, and all that it streams are trades. -/
def binance : Venue String Binance.Kline Binance.Trade :=
  ⟨id, Binance.Kline.toBar, fun t _ => t.toTick.map some⟩

/-- Interactive Brokers: instruments are contracts, whose times are always valid. -/
def ibkr : Venue Ibkr.Contract Ibkr.HistoryBar Ibkr.Ticker :=
  ⟨Ibkr.Contract.display, fun b c i => .ok (b.toBar c i), fun t c => .ok (t.toTick? c)⟩

/-- A place that ticks are sent on to. Sending takes time: it is started, and asked for later. -/
structure Downstream (σ : Type) where
  publish : Nat → List Tick → σ → Nat × σ
  published? : Nat → σ → Option (Except String Unit × σ)

/-- Everything that is done at some time is told that time first. -/
structure Surroundings (σ ι ρ τ : Type) where
  /-- Starts a fetch and tells its number. -/
  fetch : Nat → ι → HistoryRequest → σ → Nat × σ
  /-- The result of a fetch, which is given once. -/
  fetched? : Nat → Nat → σ → Option (Except VenueError (List ρ) × σ)
  /-- Opens a stream and tells its number. -/
  openStream : Nat → ι → σ → Except VenueError Nat × σ
  receive : Nat → σ → Received τ × σ
  dropStream : Nat → σ → σ
  persistBars : Nat → List Bar → σ → Except StoreError Nat × σ
  persistTicks : Nat → List Tick → σ → Except StoreError Nat × σ
  downstream : Option (Downstream σ)

namespace Surroundings

variable {σ ι ρ τ : Type} (S : Surroundings σ ι ρ τ)

/-- The trades that wait on a stream, at most some number of them. -/
def gather (stream : Nat) : Nat → σ → List τ × σ
  | 0, s => ([], s)
  | n + 1, s =>
    match S.receive stream s with
    | (.item t, s) =>
      let (rest, s) := gather stream n s
      (t :: rest, s)
    | (_, s) => ([], s)

/-- Writes bars. Without any, the store is not asked. -/
def storeBars (now : Nat) (bars : List Bar) (s : σ) : Except StoreError Nat × σ :=
  if bars.isEmpty then (.ok 0, s) else S.persistBars now bars s

/-- Writes ticks. Without any, the store is not asked. -/
def storeTicks (now : Nat) (ticks : List Tick) (s : σ) : Except StoreError Nat × σ :=
  if ticks.isEmpty then (.ok 0, s) else S.persistTicks now ticks s

end Surroundings
end Collector
end MarketFeed
