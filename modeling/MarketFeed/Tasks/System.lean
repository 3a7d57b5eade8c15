/-!
# MarketFeed.Tasks.System

Concurrent tasks on a clock that stands still while any of them can go on.

* `System` — the tasks of a world, what each of them does next, and what times they wait for.
* `System.settle` — lets every task go on until all of them wait.
* `System.advance` — lets time pass up to a deadline, from one awaited time to the next.
* `System.await` — lets time pass until something has happened.
* `System.within`, `System.beside` — a system as a part of a larger world, and two of them in one.

Times are nanoseconds since the start of the clock.
-/

namespace MarketFeed

/-- `ω` is a world, `α` names the tasks in it. -/
structure System (ω α : Type) where
  tasks : ω → List α
  /-- What a task does next at a time; none if it has to wait. -/
  step : Nat → α → ω → Option ω
  /-- The times that tasks wait for. -/
  alarms : ω → List Nat

/-- A world and the time in it. -/
structure Timed (ω : Type) where
  now : Nat
  world : ω

/-- Changes the world at once. -/
def Timed.update {ω : Type} (f : ω → ω) (s : Timed ω) : Timed ω := { s with world := f s.world }

/-- The steps after which a world that never comes to rest is left as it is. -/
def patience : Nat := 10000000

/-- The least number of a list. -/
def least? : List Nat → Option Nat
  | [] => none
  | n :: rest =>
    match least? rest with
    | none => some n
    | some m => some (min n m)

namespace System

variable {ω α : Type} (S : System ω α)

/-- Lets one task go on until it waits; the number is the fuel that is left. -/
def runTask (now : Nat) (a : α) : Nat → ω → Nat × ω
  | 0, w => (0, w)
  | fuel + 1, w =>
    match S.step now a w with
    | some w => runTask now a fuel w
    | none => (fuel + 1, w)

/-- Lets each task of a list go on in turn. -/
def runTasks (now : Nat) : List α → Nat → ω → Nat × ω
  | [], fuel, w => (fuel, w)
  | a :: rest, fuel, w =>
    let (fuel, w) := S.runTask now a fuel w
    runTasks now rest fuel w

/-- Rounds over all tasks until one of them changes nothing. -/
def settleWithin (now : Nat) : Nat → Nat → ω → ω
  | 0, _, w => w
  | rounds + 1, fuel, w =>
    let (left, w) := S.runTasks now (S.tasks w) fuel w
    if left = fuel then w else settleWithin now rounds left w

def settle (s : Timed ω) : Timed ω :=
  { s with world := S.settleWithin s.now patience patience s.world }

/-- The first time after now that a task waits for. -/
def nextAlarm? (s : Timed ω) : Option Nat :=
  least? ((S.alarms s.world).filter (s.now < ·))

/-- Lets time pass up to `deadline`, everything due at that time included. -/
def advanceWithin (deadline : Nat) : Nat → Timed ω → Timed ω
  | 0, s => s
  | fuel + 1, s =>
    let s := S.settle s
    match S.nextAlarm? s with
    | some t =>
      if t ≤ deadline then advanceWithin deadline fuel { s with now := t }
      else S.settle { s with now := max s.now deadline }
    | none => S.settle { s with now := max s.now deadline }

def advance (deadline : Nat) (s : Timed ω) : Timed ω := S.advanceWithin deadline patience s

/-- Lets time pass until `done`, no longer than some task waits for a time. -/
def awaitWithin (done : ω → Bool) : Nat → Timed ω → Timed ω
  | 0, s => s
  | fuel + 1, s =>
    let s := S.settle s
    if done s.world then s
    else
      match S.nextAlarm? s with
      | none => s
      | some t => awaitWithin done fuel { s with now := t }

def await (done : ω → Bool) (s : Timed ω) : Timed ω := S.awaitWithin done patience s

/-- Lets time pass until `done` or up to `deadline`. What is due at that very time comes too late:
it has not happened yet in the result. -/
def awaitUntilWithin (done : ω → Bool) (deadline : Nat) : Nat → Timed ω → Timed ω
  | 0, s => s
  | fuel + 1, s =>
    let s := S.settle s
    if done s.world then s
    else
      match S.nextAlarm? s with
      | none => { s with now := max s.now deadline }
      | some t =>
        if t < deadline then awaitUntilWithin done deadline fuel { s with now := t }
        else { s with now := max s.now deadline }

def awaitUntil (done : ω → Bool) (deadline : Nat) (s : Timed ω) : Timed ω :=
  S.awaitUntilWithin done deadline patience s

/-- The system in a part of a larger world. -/
def within {Ω : Type} (get : Ω → ω) (set : Ω → ω → Ω) : System Ω α where
  tasks W := S.tasks (get W)
  step now a W := (S.step now a (get W)).map (set W)
  alarms W := S.alarms (get W)

/-- Two systems in one world. -/
def beside {β : Type} (T : System ω β) : System ω (α ⊕ β) where
  tasks w := (S.tasks w).map .inl ++ (T.tasks w).map .inr
  step now t w :=
    match t with
    | .inl a => S.step now a w
    | .inr b => T.step now b w
  alarms w := S.alarms w ++ T.alarms w

end System
end MarketFeed
