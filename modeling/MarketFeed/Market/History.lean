import MarketFeed.Market.Interval

/-!
# MarketFeed.Market.History

* `HistoryRequest` — the range of a historical fetch: an interval, an optional start and end, and
  an optional bound on the number of bars.
* `HistoryRequest.span` — the length of time it covers.
-/

namespace MarketFeed

structure HistoryRequest where
  interval : Interval
  start : Option Instant
  «end» : Option Instant
  limit : Option UInt32
  deriving DecidableEq, Repr

namespace HistoryRequest

/-- The most recent `limit` bars. -/
def latest (interval : Interval) (limit : UInt32) : HistoryRequest :=
  ⟨interval, none, none, some limit⟩

/-- From the start to the end, which is `now` if none is given. Without a start, as many intervals
as the limit says, one if there is none, cut to the longest span. -/
def span (r : HistoryRequest) (now : Instant) : Span :=
  match r.start with
  | some start => (r.end.getD now).since start
  | none =>
    ((Span.ofSeconds r.interval.seconds).times? (r.limit.elim 1 UInt32.toNat)).getD Span.max

def ofTree? (t : Json.Tree) : Option HistoryRequest :=
  match Json.fields? ["interval", "start", "end", "limit"] false t with
  | some [interval, start, «end», limit] => do
    let interval ← Json.required? Interval.ofTree? interval
    let start ← Json.optional? Json.Tree.instant? start
    let «end» ← Json.optional? Json.Tree.instant? «end»
    let limit ← Json.optional? Json.Tree.word32? limit
    some ⟨interval, start, «end», limit.map UInt32.ofNat⟩
  | _ => none

def value (r : HistoryRequest) : Json.Value :=
  .record [("interval", r.interval.value), ("start", .ofOption .ofInstant r.start),
    ("end", .ofOption .ofInstant r.end), ("limit", .ofOption (fun n => .ofNat n.toNat) r.limit)]

end HistoryRequest
end MarketFeed
