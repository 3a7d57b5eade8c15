import MarketFeed.Market.History

/-!
# MarketFeed.Collector.Config

* `Collector.Config` — what a collector polls and streams, and how often.
-/

namespace MarketFeed
namespace Collector

/-- `ι` is what the venue calls an instrument. -/
structure Config (ι : Type) where
  /-- The instruments whose history is polled, with the interval of the bars. -/
  backfill : List (ι × Interval)
  /-- The instruments whose trades are streamed. -/
  live : List ι
  pollInterval : Span
  /-- The bars asked for by one poll. -/
  lookback : UInt32
  /-- The most ticks written at once. -/
  tickBatchSize : UInt64
  streamRestartDelay : Span

namespace Config

def default {ι : Type} : Config ι := ⟨[], [], .ofSeconds 60, 500, 500, .ofSeconds 5⟩

instance {ι : Type} : Inhabited (Config ι) := ⟨default⟩

def fieldNames : List String :=
  ["backfill", "live", "poll_interval", "lookback", "tick_batch_size", "stream_restart_delay"]

def ofTree? {ι : Type} (instrument : Json.Tree → Option ι) (t : Json.Tree) : Option (Config ι) :=
  match Json.fields? fieldNames false t with
  | some [backfill, live, poll, lookback, batch, restart] => do
    let pair := Json.Tree.pair? instrument Interval.ofTree?
    let backfill ← Json.required? (Json.Tree.list? pair) backfill
    let live ← Json.required? (Json.Tree.list? instrument) live
    let poll ← Json.required? Json.Tree.span? poll
    let lookback ← Json.required? Json.Tree.word32? lookback
    let batch ← Json.required? Json.Tree.word64? batch
    let restart ← Json.required? Json.Tree.span? restart
    some ⟨backfill, live, poll, .ofNat lookback, .ofNat batch, restart⟩
  | _ => none

def value {ι : Type} (instrument : ι → Json.Value) (c : Config ι) : Json.Value :=
  .record [("backfill", .array (c.backfill.map fun p => .array [instrument p.1, p.2.value])),
    ("live", .array (c.live.map instrument)), ("poll_interval", .ofSpan c.pollInterval),
    ("lookback", .ofNat c.lookback.toNat), ("tick_batch_size", .ofNat c.tickBatchSize.toNat),
    ("stream_restart_delay", .ofSpan c.streamRestartDelay)]

end Config
end Collector
end MarketFeed
