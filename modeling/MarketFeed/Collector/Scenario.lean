import MarketFeed.Collector.Script

/-!
# MarketFeed.Collector.Scenario

A collector on a clock among surroundings that follow a script, and what is seen after each
command.

* `Command`, `Report` — what is done, and what is seen.
* `Scenario.run` — the reports of some commands.
-/

namespace MarketFeed
namespace Collector

inductive Command (ι τ : Type) where
  /-- Starts all loops. -/
  | run
  | wait (length : Nat)
  | stop
  /-- Stops, and tells whether the collector was stopped before and after. -/
  | stopSignal
  | push (instrument : String) (trades : List τ)
  | endStream (instrument : String)
  | pass (instrument : ι) (request : HistoryRequest)
  | storeBars (rows : List Bar)
  | storeTicks (rows : List Tick)
  | bars
  | ticks

/-- What a command gives. -/
inductive Got where
  | nothing
  | flags (before after : Bool)
  | flag (b : Bool)
  | count (n : Nat)
  | passed (result : Except Failure Nat)
  | stored (result : Except StoreError Nat)
  | bars (rows : List Bar)
  | ticks (rows : List Tick)

/-- What happened around a collector, or to it. -/
inductive Happening where
  | around (e : Event)
  | runFinished

/-- The time after a command, what it gave, and what happened since the last report. -/
structure Report where
  now : Nat
  got : Got
  happenings : List (Nat × Happening)

namespace Happening

/-- Happenings at one time are told in this order: history first, the ends of runs last. -/
def lane : Happening → Nat
  | .around (.fetch ..) => 0
  | .around (.bars ..) => 0
  | .around _ => 1
  | .runFinished => 2

/-- Whom it is about. -/
def who : Happening → String
  | .around (.fetch i _) => i
  | .around (.opened i) => i
  | .around (.bars rows _) => Script.barName rows
  | .around (.ticks rows _) => Script.tickName rows
  | .around (.published rows _) => Script.tickName rows
  | .runFinished => ""

/-- By time, then by lane, then by whom they are about, in capital letters. -/
def before (a b : Nat × Happening) : Bool :=
  if a.1 ≠ b.1 then a.1 < b.1
  else if a.2.lane ≠ b.2.lane then a.2.lane < b.2.lane
  else Text.upperText a.2.who ≤ Text.upperText b.2.who

end Happening

/-- The collector on its clock, and the venue that it is for. -/
structure Scenario (ι ρ τ : Type) where
  venue : Venue ι ρ τ
  hasDownstream : Bool
  timed : Timed (World (Script ρ τ) ι)

namespace Scenario

variable {ι ρ τ : Type}

def new (venue : Venue ι ρ τ) (config : Config ι) (script : Script ρ τ) : Scenario ι ρ τ :=
  ⟨venue, script.publications.isSome, ⟨0, .new config script⟩⟩

def surroundings (s : Scenario ι ρ τ) : Surroundings (Script ρ τ) ι ρ τ :=
  Script.surroundings s.venue.display s.hasDownstream

def system (s : Scenario ι ρ τ) : System (World (Script ρ τ) ι) (World.Move ⊕ Empty) :=
  World.system s.venue s.surroundings Script.system

def setWorld (s : Scenario ι ρ τ) (w : World (Script ρ τ) ι) : Scenario ι ρ τ :=
  { s with timed := { s.timed with world := w } }

def setAround (s : Scenario ι ρ τ) (script : Script ρ τ) : Scenario ι ρ τ :=
  s.setWorld (s.timed.world.setAround script)

def perform (s : Scenario ι ρ τ) : Command ι τ → Got × Scenario ι ρ τ
  | .run => (.nothing, s.setWorld s.timed.world.start.2)
  | .wait length =>
    (.nothing, { s with timed := s.system.advance (s.timed.now + length) s.timed })
  | .stop => (.nothing, s.setWorld s.timed.world.stop)
  | .stopSignal =>
    let w := s.timed.world.stop
    (.flags s.timed.world.stopped w.stopped, s.setWorld w)
  | .push instrument trades =>
    let (n, script) := s.timed.world.around.push instrument trades
    (.count n, s.setAround script)
  | .endStream instrument =>
    let (b, script) := s.timed.world.around.endStream instrument
    (.flag b, s.setAround script)
  | .pass instrument request =>
    let (result, timed) :=
      World.pass s.venue s.surroundings Script.system s.timed instrument request
    (.passed result, { s with timed })
  | .storeBars rows =>
    let (r, script) := s.surroundings.storeBars s.timed.now rows s.timed.world.around
    (.stored r, s.setAround script)
  | .storeTicks rows =>
    let (r, script) := s.surroundings.storeTicks s.timed.now rows s.timed.world.around
    (.stored r, s.setAround script)
  | .bars => (.bars s.timed.world.around.memory.bars, s)
  | .ticks => (.ticks s.timed.world.around.memory.ticks, s)

def happenings (w : World (Script ρ τ) ι) : List (Nat × Happening) :=
  let all := w.around.events.map (fun e => (e.1, Happening.around e.2)) ++
    w.finished.map fun t => (t, .runFinished)
  all.mergeSort Happening.before

/-- What is seen once everything has come to rest; it is forgotten at once. -/
def report (s : Scenario ι ρ τ) (got : Got) : Report × Scenario ι ρ τ :=
  let t := s.system.settle s.timed
  let w := { t.world with around := { t.world.around with events := [] }, finished := [] }
  (⟨t.now, got, happenings t.world⟩, { s with timed := { t with world := w } })

def run (s : Scenario ι ρ τ) : List (Command ι τ) → List Report
  | [] => []
  | c :: rest =>
    let (got, s) := s.perform c
    let (r, s) := s.report got
    r :: run s rest

end Scenario
end Collector
end MarketFeed
