import MarketFeed.Collector.Loop
import MarketFeed.Store.Memory

/-!
# MarketFeed.Collector.Script

Surroundings that follow a script and keep a log.

* `Queues` — what is next for each name.
* `Script` — a source, a memory store and a downstream, each with what comes of its calls.
* `Script.surroundings` — what a collector sees of them.
-/

namespace MarketFeed
namespace Collector

/-- Queues by name; a name without one has an empty queue. -/
structure Queues (α : Type) where
  entries : List (String × List α)

namespace Queues

variable {α : Type}

def none : Queues α := ⟨[]⟩

/-- Takes the next entry under a name. -/
def pop (q : Queues α) (name : String) : Option α × Queues α :=
  match q.entries.find? (·.1 = name) with
  | some (_, a :: rest) =>
    (some a, ⟨q.entries.map fun e => if e.1 = name then (name, rest) else e⟩)
  | _ => (.none, q)

end Queues

/-- The time that a fetch takes, and what comes of it. -/
structure ScriptedFetch (ρ : Type) where
  delay : Nat
  result : Except VenueError (List ρ)

/-- The trades of a stream, which may end after them; or why it cannot be opened. -/
inductive ScriptedOpening (τ : Type) where
  | trades (l : List τ) (closes : Bool)
  | failure (e : VenueError)

/-- What was seen of a collector. -/
inductive Event where
  | fetch (instrument : String) (request : HistoryRequest)
  | opened (instrument : String)
  | bars (rows : List Bar) (ok : Bool)
  | ticks (rows : List Tick) (ok : Bool)
  | published (rows : List Tick) (ok : Bool)

/-- A fetch under way. -/
structure PendingFetch (ρ : Type) where
  id : Nat
  due : Nat
  result : Except VenueError (List ρ)

/-- A stream that was opened. -/
structure ScriptedStream (τ : Type) where
  id : Nat
  instrument : String
  queue : Channel τ

structure Script (ρ τ : Type) where
  fetches : Queues (ScriptedFetch ρ)
  openings : Queues (ScriptedOpening τ)
  barFailures : Queues (Option StoreError)
  tickFailures : Queues (Option StoreError)
  /-- What sending on comes to; none if there is no downstream. -/
  publications : Option (Queues (Option String))
  pending : List (PendingFetch ρ)
  streams : List (ScriptedStream τ)
  results : List (Nat × Except String Unit)
  nextId : Nat
  memory : Store.Memory
  events : List (Nat × Event)

namespace Script

variable {ι ρ τ : Type}

def new (fetches : Queues (ScriptedFetch ρ)) (openings : Queues (ScriptedOpening τ))
    (barFailures tickFailures : Queues (Option StoreError))
    (publications : Option (Queues (Option String))) : Script ρ τ :=
  ⟨fetches, openings, barFailures, tickFailures, publications, [], [], [], 0, .empty, []⟩

def log (s : Script ρ τ) (now : Nat) (e : Event) : Script ρ τ :=
  { s with events := s.events ++ [(now, e)] }

/-! ## The source -/

/-- Without an entry there are no rows. -/
def fetch (display : ι → String) (now : Nat) (instrument : ι) (request : HistoryRequest)
    (s : Script ρ τ) : Nat × Script ρ τ :=
  let name := display instrument
  let (entry, fetches) := s.fetches.pop name
  let entry := entry.getD ⟨0, .ok []⟩
  let pending := s.pending ++ [⟨s.nextId, now + entry.delay, entry.result⟩]
  (s.nextId,
    { s.log now (.fetch name request) with fetches, pending, nextId := s.nextId + 1 })

def fetched? (now id : Nat) (s : Script ρ τ) :
    Option (Except VenueError (List ρ) × Script ρ τ) :=
  match s.pending.find? (·.id = id) with
  | none => none
  | some p =>
    if p.due ≤ now then some (p.result, { s with pending := s.pending.filter (·.id ≠ id) })
    else none

/-- Without an entry the stream is open and empty. -/
def openStream (display : ι → String) (now : Nat) (instrument : ι) (s : Script ρ τ) :
    Except VenueError Nat × Script ρ τ :=
  let name := display instrument
  let (entry, openings) := s.openings.pop name
  let s := { s.log now (.opened name) with openings }
  match entry.getD (.trades [] false) with
  | .failure e => (.error e, s)
  | .trades l closes =>
    let queue : Channel τ := ⟨0, l, false, closes⟩
    (.ok s.nextId,
      { s with streams := s.streams ++ [⟨s.nextId, name, queue⟩], nextId := s.nextId + 1 })

def onStream (s : Script ρ τ) (id : Nat) (f : Channel τ → Channel τ) : Script ρ τ :=
  { s with
    streams := s.streams.map fun t => if t.id = id then { t with queue := f t.queue } else t }

def receive (id : Nat) (s : Script ρ τ) : Received τ × Script ρ τ :=
  match s.streams.find? (·.id = id) with
  | none => (.ended, s)
  | some t =>
    let (r, queue) := t.queue.receive
    (r, s.onStream id fun _ => queue)

def dropStream (id : Nat) (s : Script ρ τ) : Script ρ τ := s.onStream id Channel.close

/-- The stream of an instrument that was opened last, unless it has ended. -/
def current? (s : Script ρ τ) (instrument : String) : Option (ScriptedStream τ) :=
  match (s.streams.filter (·.instrument = instrument)).getLast? with
  | some t => if t.queue.ended then none else some t
  | none => none

/-- Trades come on a stream. The number is that of the trades that have a receiver. -/
def push (s : Script ρ τ) (instrument : String) (trades : List τ) : Nat × Script ρ τ :=
  match s.current? instrument with
  | none => (0, s)
  | some t =>
    if t.queue.closed then (0, s)
    else (trades.length, s.onStream t.id fun q => { q with items := q.items ++ trades })

/-- A stream ends, if there is one. -/
def endStream (s : Script ρ τ) (instrument : String) : Bool × Script ρ τ :=
  match s.current? instrument with
  | none => (false, s)
  | some t => (true, s.onStream t.id Channel.finish)

/-! ## The store -/

def barName (rows : List Bar) : String := (rows.head?.map Bar.symbol).getD ""

def tickName (rows : List Tick) : String := (rows.head?.map Tick.symbol).getD ""

def persistBars (now : Nat) (rows : List Bar) (s : Script ρ τ) :
    Except StoreError Nat × Script ρ τ :=
  let (failure, barFailures) := s.barFailures.pop (barName rows)
  let s := { s with barFailures }
  match failure.join with
  | some e => (.error e, s.log now (.bars rows false))
  | none =>
    let (n, memory) := s.memory.persistBars rows
    (.ok n, { s.log now (.bars rows true) with memory })

def persistTicks (now : Nat) (rows : List Tick) (s : Script ρ τ) :
    Except StoreError Nat × Script ρ τ :=
  let (failure, tickFailures) := s.tickFailures.pop (tickName rows)
  let s := { s with tickFailures }
  match failure.join with
  | some e => (.error e, s.log now (.ticks rows false))
  | none =>
    let (n, memory) := s.memory.persistTicks rows
    (.ok n, { s.log now (.ticks rows true) with memory })

/-! ## The downstream -/

def publish (now : Nat) (rows : List Tick) (s : Script ρ τ) : Nat × Script ρ τ :=
  let (failure, rest) := (s.publications.getD .none).pop (tickName rows)
  let result : Except String Unit :=
    match failure.join with
    | some e => .error e
    | none => .ok ()
  (s.nextId,
    { s.log now (.published rows failure.join.isNone) with
      publications := some rest
      results := s.results ++ [(s.nextId, result)]
      nextId := s.nextId + 1 })

def published? (id : Nat) (s : Script ρ τ) : Option (Except String Unit × Script ρ τ) :=
  (s.results.find? (·.1 = id)).map fun p =>
    (p.2, { s with results := s.results.filter (·.1 ≠ id) })

/-! ## As surroundings -/

/-- What a collector sees; whether there is a downstream is said beforehand. -/
def surroundings (display : ι → String) (hasDownstream : Bool) :
    Surroundings (Script ρ τ) ι ρ τ where
  fetch := fetch display
  fetched? := fetched?
  openStream := openStream display
  receive := receive
  dropStream := dropStream
  persistBars := persistBars
  persistTicks := persistTicks
  downstream := if hasDownstream then some ⟨publish, published?⟩ else none

/-- The script waits for its fetches, and does nothing by itself. -/
def system : System (Script ρ τ) Empty where
  tasks _ := []
  step _ _ _ := none
  alarms s := s.pending.map PendingFetch.due

end Script
end Collector
end MarketFeed
