import MarketFeed.Collector.Script
import MarketFeed.Proofs.Collector.Stages
import MarketFeed.Proofs.Tasks.System

/-!
# MarketFeed.Proofs.Collector.Passes

One pass over history, made by a collector that does nothing else.

* `Idle` — no loop, no pass and no fetch is under way, and the store takes what it is given.
* `alone` — a collector with nothing but one pass; `fetching_waits`, `fetching_goes`,
  `storing_goes`, `finished_waits` — how the pass goes on.
* `settle_fetching`, `await_alone` — on a script it waits for its fetch and then goes to its end.
* `pass_of_idle` — what comes of a pass: its result, and what the store keeps.
-/

namespace MarketFeed
namespace Collector
namespace World

variable {ι ρ τ : Type}

/-- The result of a pass whose fetch came to this. -/
def resultOf (V : Venue ι ρ τ) (instrument : ι) (interval : Interval) :
    Except VenueError (List ρ) → Except Failure Nat
  | .ok rows => .ok (V.bars instrument interval rows).length
  | .error e => .error (.venue e)

/-- Where it is then. -/
def stageOf (V : Venue ι ρ τ) (instrument : ι) (interval : Interval) :
    Except VenueError (List ρ) → PassStage
  | .ok rows => .storing (V.bars instrument interval rows)
  | .error e => .finished (.error (.venue e))

/-- What a store in memory keeps after it. -/
def keptOf (V : Venue ι ρ τ) (instrument : ι) (interval : Interval) (memory : Store.Memory) :
    Except VenueError (List ρ) → Store.Memory
  | .ok rows => (memory.persistBars (V.bars instrument interval rows)).2
  | .error _ => memory

/-- Nothing is under way, and the store takes what it is given. -/
structure Idle (w : World (Script ρ τ) ι) : Prop where
  jobs : w.jobs = []
  runs : w.runs = []
  pending : w.around.pending = []
  takes : w.around.barFailures = .none

/-! ## A collector with nothing but one pass -/

section

variable {σ α : Type}

def alone (w : World σ ι) (id : Nat) (instrument : ι) (request : HistoryRequest)
    (stage : PassStage) (around : σ) : World σ ι :=
  { w with jobs := [⟨id, none, .pass instrument request stage⟩], around }

variable {V : Venue ι ρ τ} {S : Surroundings σ ι ρ τ} {others : System σ α} {w : World σ ι}
  {id now : Nat} {instrument : ι} {request : HistoryRequest} {stage : PassStage} {around : σ}

theorem job?_alone : (w.alone id instrument request stage around).job? id =
    some ⟨id, none, .pass instrument request stage⟩ :=
  List.find?_cons_of_pos (decide_eq_true rfl)

theorem tasks_alone (hruns : w.runs = []) :
    (system V S others).tasks (w.alone id instrument request stage around) =
      .inl (.halt id) :: .inl (.goOn id) :: (others.tasks around).map .inr := by
  simp [system, loops, System.beside, System.within, moves, alone, hruns]

theorem alarms_alone : (system V S others).alarms (w.alone id instrument request stage around) =
    others.alarms around := rfl

theorem halt_alone : (system V S others).step now (.inl (.halt id))
    (w.alone id instrument request stage around) = none := by
  change ((w.alone id instrument request stage around).job? id).bind _ = none
  rw [job?_alone, Option.bind_some, halt]
  split <;> rfl

/-- A pass goes on. -/
theorem goOn_alone : (system V S others).step now (.inl (.goOn id))
    (w.alone id instrument request stage around) =
      ((w.alone id instrument request stage around).goPass V S now instrument request.interval
        stage).map fun p => p.2.setWork id (.pass instrument request p.1) := by
  change ((w.alone id instrument request stage around).job? id).bind _ = _
  rw [job?_alone, Option.bind_some]
  rfl

/-- What goes on around the collector leaves the pass where it is. -/
theorem others_alone (a : α) :
    (system V S others).step now (.inr a) (w.alone id instrument request stage around) =
      (others.step now a around).map fun s => w.alone id instrument request stage s := rfl

theorem setWork_alone (stage' : PassStage) (around' : σ) :
    ({ w.alone id instrument request stage around with around := around' }).setWork id
      (.pass instrument request stage') = w.alone id instrument request stage' around' := by
  simp [alone, setWork]

theorem result?_alone : (w.alone id instrument request stage around).result? id =
    match stage with
    | .finished r => some r
    | _ => none := by
  rw [result?, job?_alone]
  cases stage <;> rfl

/-- A pass whose fetch takes longer waits. -/
theorem fetching_waits {fetch : Nat} (h : S.fetched? now fetch around = none) :
    (system V S others).step now (.inl (.goOn id))
      (w.alone id instrument request (.fetching fetch) around) = none := by
  rw [goOn_alone, goPass_fetching,
    show (w.alone id instrument request (.fetching fetch) around).around = around from rfl, h]
  rfl

theorem fetching_goes {fetch : Nat} {r : Except VenueError (List ρ)} {around' : σ}
    (h : S.fetched? now fetch around = some (r, around')) :
    (system V S others).step now (.inl (.goOn id))
      (w.alone id instrument request (.fetching fetch) around) =
        some (w.alone id instrument request (stageOf V instrument request.interval r) around') := by
  rw [goOn_alone, goPass_fetching,
    show (w.alone id instrument request (.fetching fetch) around).around = around from rfl, h]
  cases r <;> exact congrArg some (setWork_alone _ _)

theorem storing_goes {bars : List Bar} {n : Nat} {around' : σ}
    (h : S.storeBars now bars around = (.ok n, around')) :
    (system V S others).step now (.inl (.goOn id))
      (w.alone id instrument request (.storing bars) around) =
        some (w.alone id instrument request (.finished (.ok n)) around') := by
  rw [goOn_alone, goPass_storing,
    show (w.alone id instrument request (.storing bars) around).around = around from rfl, h]
  exact congrArg some (setWork_alone _ _)

/-- A pass that is over is left as it is. -/
theorem finished_waits {r : Except Failure Nat} :
    (system V S others).step now (.inl (.goOn id))
      (w.alone id instrument request (.finished r) around) = none := goOn_alone

end

variable {V : Venue ι ρ τ} {hasDownstream : Bool} {w : World (Script ρ τ) ι} {id now : Nat}
  {instrument : ι} {request : HistoryRequest} {stage : PassStage} {around : Script ρ τ}

/-- A collector on a script. -/
abbrev scripted (V : Venue ι ρ τ) (hasDownstream : Bool) :
    System (World (Script ρ τ) ι) (Move ⊕ Empty) :=
  system V (Script.surroundings V.display hasDownstream) Script.system

theorem tasks_scripted (hruns : w.runs = []) :
    (scripted V hasDownstream).tasks (w.alone id instrument request stage around) =
      [.inl (.halt id), .inl (.goOn id)] := tasks_alone hruns

/-! ## The store -/

/-- The script after a pass: what the store keeps, and all fetches taken. -/
structure Done (fetches : Queues (ScriptedFetch ρ)) (memory : Store.Memory)
    (around : Script ρ τ) : Prop where
  fetches : around.fetches = fetches
  memory : around.memory = memory
  pending : around.pending = []
  takes : around.barFailures = .none

theorem storeBars_takes (V : Venue ι ρ τ) (hasDownstream : Bool) (now : Nat) (bars : List Bar)
    (hpending : around.pending = []) (htakes : around.barFailures = .none) :
    ∃ s', (Script.surroundings V.display hasDownstream :
        Surroundings (Script ρ τ) ι ρ τ).storeBars now bars around = (.ok bars.length, s') ∧
      Done around.fetches (around.memory.persistBars bars).2 s' := by
  rw [Surroundings.storeBars]
  split
  · rename_i hempty
    rw [List.isEmpty_iff] at hempty
    subst hempty
    exact ⟨around, rfl, rfl, rfl, hpending, htakes⟩
  · simp only [Script.surroundings, Script.persistBars, htakes]
    exact ⟨_, rfl, rfl, rfl, hpending, rfl⟩

theorem storing_alone (V : Venue ι ρ τ) (hasDownstream : Bool) (w : World (Script ρ τ) ι) (id : Nat)
    (instrument : ι) (request : HistoryRequest) (around : Script ρ τ) (now : Nat) (bars : List Bar)
    (hpending : around.pending = [])
    (htakes : around.barFailures = .none) :
    ∃ s', (scripted V hasDownstream).step now (.inl (.goOn id))
        (w.alone id instrument request (.storing bars) around) =
          some (w.alone id instrument request (.finished (.ok bars.length)) s') ∧
      Done around.fetches (around.memory.persistBars bars).2 s' := by
  obtain ⟨s', hstore, hdone⟩ := storeBars_takes V hasDownstream now bars hpending htakes
  exact ⟨s', storing_goes hstore, hdone⟩

/-! ## The fetch -/

theorem fetched?_of_pending {fetch due : Nat} {r : Except VenueError (List ρ)}
    (hpending : around.pending = [⟨fetch, due, r⟩]) :
    Script.fetched? now fetch around =
      if due ≤ now then some (r, { around with pending := [] }) else none := by
  simp [Script.fetched?, hpending]

/-- A pass that is over is left as it is. -/
theorem finished_alone_still (hruns : w.runs = []) {r : Except Failure Nat} :
    ∀ a ∈ (scripted V hasDownstream).tasks (w.alone id instrument request (.finished r) around),
      (scripted V hasDownstream).step now a
        (w.alone id instrument request (.finished r) around) = none := by
  rw [tasks_scripted hruns, List.forall_mem_cons, List.forall_mem_singleton]
  exact ⟨halt_alone, finished_waits⟩

/-- A pass whose fetch is due goes on to its end at once. -/
theorem settle_fetching (hruns : w.runs = []) (htakes : around.barFailures = .none)
    {fetch due : Nat} {r : Except VenueError (List ρ)}
    (hpending : around.pending = [⟨fetch, due, r⟩]) (hdue : due ≤ now) :
    ∃ s', (scripted V hasDownstream).settle
        ⟨now, w.alone id instrument request (.fetching fetch) around⟩ =
          ⟨now, w.alone id instrument request
            (.finished (resultOf V instrument request.interval r)) s'⟩ ∧
      Done around.fetches (keptOf V instrument request.interval around.memory r) s' := by
  obtain ⟨f, hf⟩ : ∃ f, patience = f + 3 := ⟨_, rfl⟩
  have hfetch : (scripted V hasDownstream).step now (.inl (.goOn id))
      (w.alone id instrument request (.fetching fetch) around) =
        some (w.alone id instrument request (stageOf V instrument request.interval r)
          { around with pending := [] }) :=
    fetching_goes ((fetched?_of_pending hpending).trans (if_pos hdue))
  -- one round over the tasks leads to the end, and the next one changes nothing
  suffices hround : ∃ left s', (scripted V hasDownstream).runTask now (.inl (.goOn id)) (f + 3)
      (w.alone id instrument request (.fetching fetch) around) =
        (left, w.alone id instrument request
          (.finished (resultOf V instrument request.interval r)) s') ∧ left ≠ f + 3 ∧
      Done around.fetches (keptOf V instrument request.interval around.memory r) s' by
    obtain ⟨left, s', hrun, hleft, hdone⟩ := hround
    refine ⟨s', congrArg (Timed.mk now) ?_, hdone⟩
    rw [hf, System.settleWithin, tasks_scripted hruns, System.runTasks_cons,
      System.runTask_of_none halt_alone, System.runTasks_cons, hrun]
    exact (if_neg hleft).trans (System.settleWithin_of_still (finished_alone_still hruns))
  rw [System.runTask_of_some hfetch]
  cases r with
  | error e =>
    exact ⟨f + 2, _, System.runTask_of_none finished_waits, by omega, rfl, rfl, rfl, htakes⟩
  | ok rows =>
    obtain ⟨s', hstore, hdone⟩ := storing_alone V hasDownstream w id instrument request
      { around with pending := [] } now (V.bars instrument request.interval rows) rfl htakes
    exact ⟨f + 1, s', (System.runTask_of_some hstore).trans (System.runTask_of_none finished_waits),
      by omega, hdone⟩

/-! ## The pass -/

/-- A pass comes to its end, however long its fetch takes. -/
theorem await_alone (hruns : w.runs = []) (htakes : around.barFailures = .none)
    {fetch due : Nat} {r : Except VenueError (List ρ)}
    (hpending : around.pending = [⟨fetch, due, r⟩]) :
    ∃ now' s', (scripted V hasDownstream).await (fun w => (w.result? id).isSome)
        ⟨now, w.alone id instrument request (.fetching fetch) around⟩ =
          ⟨now', w.alone id instrument request
            (.finished (resultOf V instrument request.interval r)) s'⟩ ∧
      Done around.fetches (keptOf V instrument request.interval around.memory r) s' := by
  obtain ⟨f, hf⟩ : ∃ f, patience = f + 2 := ⟨_, rfl⟩
  -- once the fetch is due the pass ends where it is
  have hlast (n now : Nat) (hdue : due ≤ now) :
      ∃ s', (scripted V hasDownstream).awaitWithin (fun w => (w.result? id).isSome) (n + 1)
          ⟨now, w.alone id instrument request (.fetching fetch) around⟩ =
            ⟨now, w.alone id instrument request
              (.finished (resultOf V instrument request.interval r)) s'⟩ ∧
        Done around.fetches (keptOf V instrument request.interval around.memory r) s' := by
    obtain ⟨s', hsettle, hdone⟩ := settle_fetching (V := V) (w := w) hruns htakes hpending hdue
    refine ⟨s', ?_, hdone⟩
    rw [System.awaitWithin, hsettle]
    exact if_pos (by rw [result?_alone]; rfl)
  rw [System.await, hf]
  by_cases hdue : due ≤ now
  · exact ⟨now, hlast _ _ hdue⟩
  · have hstill : (scripted V hasDownstream).settle
        ⟨now, w.alone id instrument request (.fetching fetch) around⟩ =
          ⟨now, w.alone id instrument request (.fetching fetch) around⟩ := by
      refine System.settle_of_still ?_
      rw [tasks_scripted hruns, List.forall_mem_cons, List.forall_mem_singleton]
      exact ⟨halt_alone, fetching_waits ((fetched?_of_pending hpending).trans (if_neg hdue))⟩
    have halarm : (scripted V hasDownstream).nextAlarm?
        ⟨now, w.alone id instrument request (.fetching fetch) around⟩ = some due := by
      have halarms : (scripted V hasDownstream).alarms
          (w.alone id instrument request (.fetching fetch) around) = [due] := by
        change [] ++ around.pending.map PendingFetch.due = [due]
        rw [hpending]
        rfl
      rw [System.nextAlarm?, halarms, List.filter_cons_of_pos (by simpa using hdue)]
      rfl
    rw [System.awaitWithin, hstill, result?_alone, halarm]
    exact ⟨due, hlast f due (Nat.le_refl due)⟩

/-- A pass of a collector that does nothing else comes to its end, and leaves the collector so. -/
theorem pass_of_idle (V : Venue ι ρ τ) (hasDownstream : Bool)
    {t : Timed (World (Script ρ τ) ι)} (h : Idle t.world) (instrument : ι)
    (request : HistoryRequest) :
    let next := t.world.around.fetches.pop (V.display instrument)
    let answer := (next.1.getD ⟨0, .ok []⟩).result
    ∃ t', pass V (Script.surroundings V.display hasDownstream) Script.system t instrument request =
        (resultOf V instrument request.interval answer, t') ∧ Idle t'.world ∧
      t'.world.around.fetches = next.2 ∧
      t'.world.around.memory =
        keptOf V instrument request.interval t.world.around.memory answer := by
  intro next answer
  obtain ⟨now, w⟩ := t
  obtain ⟨hjobs, hruns, hpending, htakes⟩ := h
  let around : Script ρ τ :=
    (Script.fetch V.display now instrument request w.around).2
  have hstart : w.startPass (Script.surroundings V.display hasDownstream) now instrument request =
      (w.nextId, { w with nextId := w.nextId + 1 }.alone w.nextId instrument request
        (.fetching w.around.nextId) around) := by
    simp only [startPass, addJob, alone, Script.surroundings, around]
    rw [show w.jobs = [] from hjobs]
    rfl
  have hfetch : around.pending = [⟨w.around.nextId, now + (next.1.getD ⟨0, .ok []⟩).delay,
      answer⟩] := by
    change w.around.pending ++ _ = _
    rw [show w.around.pending = [] from hpending]
    rfl
  have htakes' : around.barFailures = .none := htakes
  obtain ⟨now', s', hawait, hdone⟩ := await_alone (V := V) (w := { w with nextId := w.nextId + 1 })
    hruns htakes' hfetch
  have hpass : pass V (Script.surroundings V.display hasDownstream) Script.system ⟨now, w⟩
      instrument request = (resultOf V instrument request.interval answer, ⟨now',
        { w with nextId := w.nextId + 1, jobs := [], around := s' }⟩) := by
    simp only [pass, hstart]
    rw [hawait, result?_alone]
    simp [forget, alone, Timed.update]
  exact ⟨_, hpass, ⟨rfl, hruns, hdone.pending, hdone.takes⟩, hdone.fetches, hdone.memory⟩

end World
end Collector
end MarketFeed
