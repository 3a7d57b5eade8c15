import MarketFeed.Collector.Config
import MarketFeed.Collector.Surroundings
import MarketFeed.Tasks.System

/-!
# MarketFeed.Collector.Loop

The work of a collector: a loop per instrument and interval that polls history, a loop per
instrument that streams trades, and single passes over history on request.

* `Job` — a piece of work, with the point at which it may have to wait.
* `World` — a collector and its surroundings.
* `World.goOn` — a job goes on to the next such point.
* `World.halt` — a loop learns that the collector was stopped, where it looks for that.
* `World.pass` — one pass over history, from its start to its end.

A batch of ticks is written before it is sent on. If writing fails, the same batch is written once
more; if that fails too, the batch is lost and not sent on.
-/

namespace MarketFeed
namespace Collector

/-- Why a pass over history failed. -/
inductive Failure where
  | venue (e : VenueError)
  | store (e : StoreError)
  deriving DecidableEq, Repr

def Failure.message : Failure → String
  | .venue e => e.message
  | .store e => e.message

/-- Where a pass over history may have to wait. -/
inductive PassStage where
  /-- For the rows of a fetch. -/
  | fetching (fetch : Nat)
  /-- For the store. -/
  | storing (bars : List Bar)
  | finished (result : Except Failure Nat)

/-- Where a polling loop may have to wait. -/
inductive PollStage where
  /-- At its head. -/
  | starting
  | passing (stage : PassStage)
  /-- Until the next poll. -/
  | pausing (due : Nat)

/-- Where a streaming loop may have to wait. -/
inductive StreamStage where
  /-- At its head. -/
  | starting
  /-- For the next trade. -/
  | receiving (stream : Nat)
  /-- For the store; `again` in the second attempt. -/
  | storing (stream : Nat) (batch : List Tick) (again : Bool)
  /-- To send a batch on. -/
  | forwarding (stream : Nat) (batch : List Tick)
  /-- For the downstream. -/
  | publishing (stream publication : Nat)
  /-- Until the stream is opened again. -/
  | pausing (due : Nat)

inductive Work (ι : Type) where
  /-- One pass over history. -/
  | pass (instrument : ι) (request : HistoryRequest) (stage : PassStage)
  | poll (instrument : ι) (interval : Interval) (stage : PollStage)
  | stream (instrument : ι) (stage : StreamStage)
  /-- A loop that has ended. -/
  | ended

/-- A piece of work, and the run that it belongs to, if to any. -/
structure Job (ι : Type) where
  id : Nat
  run : Option Nat
  work : Work ι

/-- A collector and its surroundings. -/
structure World (σ ι : Type) where
  config : Config ι
  stopped : Bool
  jobs : List (Job ι)
  nextId : Nat
  /-- The runs that are under way. -/
  runs : List Nat
  /-- The times at which runs have finished. -/
  finished : List Nat
  around : σ

namespace World

variable {σ ι ρ τ : Type}

def new (config : Config ι) (around : σ) : World σ ι := ⟨config, false, [], 0, [], [], around⟩

def stop (w : World σ ι) : World σ ι := { w with stopped := true }

def job? (w : World σ ι) (id : Nat) : Option (Job ι) := w.jobs.find? (·.id = id)

def setWork (w : World σ ι) (id : Nat) (work : Work ι) : World σ ι :=
  { w with jobs := w.jobs.map fun j => if j.id = id then { j with work } else j }

def addJob (w : World σ ι) (run : Option Nat) (work : Work ι) : World σ ι :=
  { w with jobs := w.jobs ++ [⟨w.nextId, run, work⟩], nextId := w.nextId + 1 }

/-- Starts all loops and tells the number of the run. -/
def start (w : World σ ι) : Nat × World σ ι :=
  let run := w.nextId
  let w := { w with nextId := run + 1, runs := w.runs ++ [run] }
  let w := w.config.backfill.foldl
    (fun w p => w.addJob (some run) (.poll p.1 p.2 .starting)) w
  (run, w.config.live.foldl (fun w i => w.addJob (some run) (.stream i .starting)) w)

/-- Starts a pass over history and tells its number. -/
def startPass (S : Surroundings σ ι ρ τ) (w : World σ ι) (now : Nat) (instrument : ι)
    (request : HistoryRequest) : Nat × World σ ι :=
  let (fetch, around) := S.fetch now instrument request w.around
  (w.nextId, { w with around }.addJob none (.pass instrument request (.fetching fetch)))

/-- The result of a pass. -/
def result? (w : World σ ι) (id : Nat) : Option (Except Failure Nat) :=
  match w.job? id with
  | some ⟨_, _, .pass _ _ (.finished r)⟩ => some r
  | _ => none

def forget (w : World σ ι) (id : Nat) : World σ ι :=
  { w with jobs := w.jobs.filter (·.id ≠ id) }

/-! ## Going on -/

section

variable (V : Venue ι ρ τ) (S : Surroundings σ ι ρ τ)

/-- A pass goes on; none while it waits. -/
def goPass (w : World σ ι) (now : Nat) (instrument : ι) (interval : Interval) :
    PassStage → Option (PassStage × World σ ι)
  | .fetching fetch =>
    (S.fetched? now fetch w.around).map fun p =>
      match p.1 with
      | .ok rows => (.storing (V.bars instrument interval rows), { w with around := p.2 })
      | .error e => (.finished (.error (.venue e)), { w with around := p.2 })
  | .storing bars =>
    let (r, around) := S.storeBars now bars w.around
    some (.finished (r.mapError .store), { w with around })
  | .finished _ => none

/-- A polling loop goes on; none while it waits. A failed pass makes no difference to it. -/
def goPoll (w : World σ ι) (now id : Nat) (instrument : ι) (interval : Interval) :
    PollStage → Option (World σ ι)
  | .starting =>
    if w.stopped then some (w.setWork id .ended)
    else
      let request := HistoryRequest.latest interval w.config.lookback
      let (fetch, around) := S.fetch now instrument request w.around
      some ({ w with around }.setWork id (.poll instrument interval (.passing (.fetching fetch))))
  | .passing (.finished _) =>
    let due := now + w.config.pollInterval.toNanos
    some (w.setWork id (.poll instrument interval (.pausing due)))
  | .passing stage =>
    (w.goPass V S now instrument interval stage).map fun p =>
      p.2.setWork id (.poll instrument interval (.passing p.1))
  | .pausing due =>
    if due ≤ now then some (w.setWork id (.poll instrument interval .starting)) else none

/-- The most trades in a batch. -/
def batchSize (w : World σ ι) : Nat := max w.config.tickBatchSize.toNat 1

/-- The end of a stream, or of the attempt to open one. -/
def pauseStream (w : World σ ι) (now id : Nat) (instrument : ι) : World σ ι :=
  w.setWork id (.stream instrument (.pausing (now + w.config.streamRestartDelay.toNanos)))

/-- A first trade has come: a batch is made of it and of those that wait behind it. -/
def takeBatch (w : World σ ι) (id : Nat) (instrument : ι) (stream : Nat) (first : τ) :
    World σ ι :=
  let (rest, around) := S.gather stream (w.batchSize - 1) w.around
  let ticks := V.ticks instrument (first :: rest)
  let stage : StreamStage :=
    if ticks.isEmpty then .receiving stream else .storing stream ticks false
  { w with around }.setWork id (.stream instrument stage)

/-- Sends a batch on, if there is somewhere to. -/
def forward (w : World σ ι) (now id : Nat) (instrument : ι) (stream : Nat) (batch : List Tick) :
    World σ ι :=
  match S.downstream with
  | none => w.setWork id (.stream instrument (.receiving stream))
  | some d =>
    let (publication, around) := d.publish now batch w.around
    { w with around }.setWork id (.stream instrument (.publishing stream publication))

/-- A streaming loop goes on; none while it waits. What comes of sending a batch on makes no
difference to it. -/
def goStream (w : World σ ι) (now id : Nat) (instrument : ι) : StreamStage → Option (World σ ι)
  | .starting =>
    if w.stopped then some (w.setWork id .ended)
    else
      match S.openStream now instrument w.around with
      | (.ok stream, around) =>
        some ({ w with around }.setWork id (.stream instrument (.receiving stream)))
      | (.error _, around) => some ({ w with around }.pauseStream now id instrument)
  | .receiving stream =>
    match S.receive stream w.around with
    | (.item first, around) => some ({ w with around }.takeBatch V S id instrument stream first)
    | (.empty, _) => none
    | (.ended, around) =>
      some ({ w with around := S.dropStream stream around }.pauseStream now id instrument)
  | .storing stream batch again =>
    let (r, around) := S.storeTicks now batch w.around
    let w := { w with around }
    match r, again with
    | .ok _, _ => some (w.setWork id (.stream instrument (.forwarding stream batch)))
    | .error _, false => some (w.setWork id (.stream instrument (.storing stream batch true)))
    | .error _, true => some (w.setWork id (.stream instrument (.receiving stream)))
  | .forwarding stream batch => some (w.forward S now id instrument stream batch)
  | .publishing stream publication =>
    match S.downstream with
    | none => some (w.setWork id (.stream instrument (.receiving stream)))
    | some d =>
      (d.published? publication w.around).map fun p =>
        { w with around := p.2 }.setWork id (.stream instrument (.receiving stream))
  | .pausing due =>
    if due ≤ now then some (w.setWork id (.stream instrument .starting)) else none

/-- A job goes on; none while it waits. -/
def goOn (w : World σ ι) (now : Nat) (j : Job ι) : Option (World σ ι) :=
  match j.work with
  | .pass instrument request stage =>
    (w.goPass V S now instrument request.interval stage).map fun p =>
      p.2.setWork j.id (.pass instrument request p.1)
  | .poll instrument interval stage => w.goPoll V S now j.id instrument interval stage
  | .stream instrument stage => w.goStream V S now j.id instrument stage
  | .ended => none

/-- A loop ends because the collector was stopped; it looks for that while it pauses and while it
waits for a trade. A loop that ends drops its stream. -/
def halt (w : World σ ι) (j : Job ι) : Option (World σ ι) :=
  if w.stopped then
    match j.work with
    | .poll _ _ (.pausing _) => some (w.setWork j.id .ended)
    | .stream _ (.pausing _) => some (w.setWork j.id .ended)
    | .stream _ (.receiving stream) =>
      some ({ w with around := S.dropStream stream w.around }.setWork j.id .ended)
    | _ => none
  else none

end

def isEnded (j : Job ι) : Bool :=
  match j.work with
  | .ended => true
  | _ => false

/-- A run is over when all of its loops have ended. -/
def finishRun (w : World σ ι) (now run : Nat) : Option (World σ ι) :=
  if w.runs.contains run && (w.jobs.filter (·.run = some run)).all isEnded then
    some { w with
      runs := w.runs.filter (· ≠ run)
      jobs := w.jobs.filter (·.run ≠ some run)
      finished := w.finished ++ [now] }
  else none

/-- The time that a job waits for. -/
def alarm? (j : Job ι) : Option Nat :=
  match j.work with
  | .poll _ _ (.pausing due) => some due
  | .stream _ (.pausing due) => some due
  | _ => none

/-- What may happen next in a collector. -/
inductive Move where
  | halt (job : Nat)
  | goOn (job : Nat)
  | finish (run : Nat)
  deriving DecidableEq, Repr

def step (V : Venue ι ρ τ) (S : Surroundings σ ι ρ τ) (now : Nat) (m : Move) (w : World σ ι) :
    Option (World σ ι) :=
  match m with
  | .halt id => (w.job? id).bind (w.halt S)
  | .goOn id => (w.job? id).bind (w.goOn V S now)
  | .finish run => w.finishRun now run

def moves (w : World σ ι) : List Move :=
  w.jobs.flatMap (fun j => [.halt j.id, .goOn j.id]) ++ w.runs.map .finish

/-- The loops and passes of a collector. -/
def loops (V : Venue ι ρ τ) (S : Surroundings σ ι ρ τ) : System (World σ ι) Move where
  tasks := moves
  step := step V S
  alarms w := w.jobs.filterMap alarm?

def setAround (w : World σ ι) (around : σ) : World σ ι := { w with around }

/-- The collector among its surroundings, which go on by themselves. -/
def system {α : Type} (V : Venue ι ρ τ) (S : Surroundings σ ι ρ τ) (around : System σ α) :
    System (World σ ι) (Move ⊕ α) :=
  (loops V S).beside (around.within World.around setAround)

/-- One pass over history, from its start to its end. -/
def pass {α : Type} (V : Venue ι ρ τ) (S : Surroundings σ ι ρ τ) (around : System σ α)
    (t : Timed (World σ ι)) (instrument : ι) (request : HistoryRequest) :
    Except Failure Nat × Timed (World σ ι) :=
  let (id, w) := t.world.startPass S t.now instrument request
  let t := (system V S around).await (fun w => (w.result? id).isSome) { t with world := w }
  ((t.world.result? id).getD (.error (.venue .notConnected)), t.update fun w => w.forget id)

end World
end Collector
end MarketFeed
