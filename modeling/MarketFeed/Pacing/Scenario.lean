import MarketFeed.Pacing.Gate
import MarketFeed.Tasks.System

/-!
# MarketFeed.Pacing.Scenario

Callers of one limiter on a clock: a sequence of commands and what is seen after each.

* `Command`, `Report` — what is done, and what is seen.
* `Scenario.run` — the reports of some commands.
-/

namespace MarketFeed
namespace Pacing

/-- Whoever calls the limiter: the main course of events, or a numbered caller beside it. -/
inductive Caller where
  | main
  | background (n : Nat)
  deriving DecidableEq, Repr

structure World where
  gate : Gate Caller
  /-- The callers under way; true for one that wants a count. -/
  waiting : List (Caller × Bool)
  /-- The grants of callers beside the main course, with their times. -/
  acquired : List (Nat × Nat)
  /-- The last count. -/
  count : Option Nat

namespace World

def call (w : World) (c : Caller) (counts : Bool) : World :=
  { w with gate := w.gate.join c, waiting := w.waiting ++ [(c, counts)] }

def cancel (w : World) (c : Caller) : World :=
  { w with gate := w.gate.leave c, waiting := w.waiting.filter (·.1 ≠ c) }

def finish (w : World) (now : Nat) (c : Caller) : World :=
  let w := { w with waiting := w.waiting.filter (·.1 ≠ c) }
  match c with
  | .main => w
  | .background n => { w with acquired := w.acquired ++ [(n, now)] }

def step (now : Nat) (c : Caller × Bool) (w : World) : Option World :=
  if c.2 then
    (w.gate.count? now c.1).map fun (n, gate) => { w.finish now c.1 with gate, count := some n }
  else
    (w.gate.acquire? now c.1).map fun gate => { w.finish now c.1 with gate }

end World

def system : System World (Caller × Bool) where
  tasks := World.waiting
  step := World.step
  alarms w := w.gate.alarms

inductive Command where
  | acquire
  | spawn (n : Nat)
  | cancel (id : Nat)
  | wait (length : Nat)
  | inWindow
  | join
  deriving DecidableEq, Repr

/-- The time after a command, the grants since the last one, and the count if one was asked for. -/
structure Report where
  now : Nat
  acquired : List (Nat × Nat)
  count : Option Nat
  deriving DecidableEq, Repr

/-- A run: the world, its time, and the number of the next caller. -/
structure Scenario where
  timed : Timed World
  next : Nat

namespace Scenario

def new (l : Limiter) : Scenario := ⟨⟨0, ⟨.new l, [], [], none⟩⟩, 0⟩

def isDone (c : Caller) (w : World) : Bool := w.waiting.all (·.1 ≠ c)

/-- The main course calls and waits for the answer. -/
def callAndWait (s : Scenario) (counts : Bool) : Scenario :=
  { s with timed := system.await (isDone .main) (s.timed.update fun w => w.call .main counts) }

def spawn (s : Scenario) : Nat → Scenario
  | 0 => s
  | n + 1 =>
    spawn ⟨s.timed.update fun w => w.call (.background s.next) false, s.next + 1⟩ n

def perform (s : Scenario) : Command → Scenario
  | .acquire => s.callAndWait false
  | .spawn n => s.spawn n
  | .cancel id => { s with timed := s.timed.update fun w => w.cancel (.background id) }
  | .wait length => { s with timed := system.advance (s.timed.now + length) s.timed }
  | .inWindow => s.callAndWait true
  | .join => { s with timed := system.await (fun w => w.waiting.isEmpty) s.timed }

/-- What is seen once everything has come to rest, and the run from there. -/
def report (s : Scenario) : Report × Scenario :=
  let t := system.settle s.timed
  (⟨t.now, t.world.acquired, t.world.count⟩,
    { s with timed := t.update fun w => { w with acquired := [], count := none } })

def run (s : Scenario) : List Command → List Report
  | [] => []
  | c :: rest =>
    let (r, s) := (s.perform c).report
    r :: run s rest

end Scenario
end Pacing
end MarketFeed
