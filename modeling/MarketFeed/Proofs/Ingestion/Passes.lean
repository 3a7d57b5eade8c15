import MarketFeed.Ingestion.Program
import MarketFeed.Proofs.Collector.Passes
import MarketFeed.Proofs.Pacing.Schedule

/-!
# MarketFeed.Proofs.Ingestion.Passes

One pass over history, made by a program that does nothing else.

* `Services.Quiet` — no fetch and no stream is under way, and the relay was never called.
* `Services.asking`, `Services.answered`, `Services.taken` — the services while they fetch.
* `settle_granted`, `settle_waiting` — a fetch is made once the limiter has room, and then the pass
  goes to its end; until then nothing goes on.
* `pass_of_ready` — what comes of a pass: its result, what the venue has seen, and what the memory
  keeps.
-/

namespace MarketFeed

/-- A limiter has room at once, or once its oldest grant leaves the window. -/
theorem Limiter.room {l : Limiter} (now : Nat) (hfew : l.recent.length ≤ l.rate) :
    (∃ l', l.acquire now = (.granted, l')) ∨
      ∃ oldest rest time l' l'', l.recent = oldest :: rest ∧ now < oldest + l.per ∧
        l.acquire now = (.notBefore time, l') ∧ l.acquire (oldest + l.per) = (.granted, l'') := by
  cases h : l.acquire now with
  | mk grant l' =>
    cases grant with
    | granted => exact .inl ⟨l', rfl⟩
    | notBefore time =>
      obtain ⟨hfull, rfl⟩ := acquire_notBefore h
      -- a full window has nothing to forget
      have hall : (l.evict now).recent = l.recent :=
        (List.dropWhile_sublist _).eq_of_length_le (Nat.le_trans hfew hfull)
      obtain ⟨oldest, rest, hrecent⟩ :=
        List.exists_cons_of_length_pos (Nat.lt_of_lt_of_le l.rate_pos hfull)
      have hrest : l.recent = oldest :: rest := hall ▸ hrecent
      obtain ⟨l'', hgrant⟩ := acquire_of_due hrest hfew
      exact .inr ⟨oldest, rest, time, _, l'', hrest, lt_of_evict hrecent, rfl, hgrant⟩

theorem Limiter.few_of_granted {l l' : Limiter} {now : Nat} (h : l.acquire now = (.granted, l')) :
    l'.recent.length ≤ l'.rate := by
  obtain ⟨hlt, rfl⟩ := acquire_granted h
  rw [List.length_append, List.length_singleton]
  exact hlt

namespace Ingestion

open Collector (World Failure)
open Collector.World (alone resultOf stageOf)

/-! ## The services -/

namespace Services

/-- The relay was never called. -/
structure Unused (n : Relay.Network) : Prop where
  calls : n.client.calls = []
  session : n.client.session = none
  connections : n.client.connections = []
  peers : n.peers = []

/-- Nothing is under way, and no stream ever was. -/
structure Quiet (s : Services) : Prop where
  fetches : s.connector.fetches = []
  streams : s.connector.streams = []
  queue : s.connector.gate.queue = []
  few : s.connector.gate.limiter.recent.length ≤ s.connector.gate.limiter.rate
  unopened : ∀ symbol, .opened symbol ∉ s.connector.calls.map Prod.snd
  relay : Unused s.relay

/-- What the venue answers, and the server after that. -/
def reply (s : Services) (symbol : String) (request : HistoryRequest) :
    Except String Http.Response × Http.Server :=
  s.connector.server.get (Binance.klinesUrl s.connector.config.restBase)
    (Binance.klinesParameters symbol request)

def rows (s : Services) (symbol : String) (request : HistoryRequest) :
    Except VenueError (List Binance.Kline) :=
  Binance.klinesOf (s.reply symbol request).1

/-- A fetch has come. -/
def asking (s : Services) (symbol : String) (request : HistoryRequest) : Services :=
  { s with
    connector := { s.connector with
      fetches := [⟨s.connector.nextId, symbol, request, none⟩]
      gate := ⟨s.connector.gate.limiter, [.fetch s.connector.nextId]⟩
      nextId := s.connector.nextId + 1 } }

/-- It had its grant, and the venue has answered. -/
def answered (s : Services) (symbol : String) (request : HistoryRequest) (l : Limiter) (now : Nat) :
    Services :=
  { s with
    connector := { s.connector with
      fetches := [⟨s.connector.nextId, symbol, request, some (s.rows symbol request)⟩]
      gate := ⟨l, []⟩
      nextId := s.connector.nextId + 1
      server := (s.reply symbol request).2
      calls := s.connector.calls ++ [(now, .request symbol)] } }

/-- Its result was taken. -/
def taken (s : Services) (symbol : String) (request : HistoryRequest) (l : Limiter) (now : Nat) :
    Services :=
  { s with
    connector := { s.connector with
      gate := ⟨l, []⟩
      nextId := s.connector.nextId + 1
      server := (s.reply symbol request).2
      calls := s.connector.calls ++ [(now, .request symbol)] } }

variable {s : Services} {symbol : String} {request : HistoryRequest} {l : Limiter} {now time : Nat}

theorem tasks_eq (hstreams : s.connector.streams = []) (hrelay : Unused s.relay) :
    system.tasks s = s.connector.fetches.map (fun f => .inl (.fetch f.id)) ++
      [.inl .look, .inr (.client .reader)] := by
  simp [system, System.beside, System.within, Binance.Connector.system, Binance.Connector.moves,
    Relay.Network.system, Relay.Client.system, hstreams, hrelay.calls, hrelay.connections]

theorem step_reader (hrelay : Unused s.relay) :
    system.step now (.inr (.client .reader)) s = none := by
  simp [system, System.beside, System.within, Relay.Network.system, Relay.Client.system,
    Relay.Client.read, hrelay.session]

theorem step_look (hqueue : s.connector.gate.queue.head? ≠ some .observer) :
    system.step now (.inl .look) s = none := by
  simp [system, System.beside, System.within, Binance.Connector.system, Binance.Connector.step,
    Binance.Connector.look, Gate.count?, hqueue]

theorem fetch_of_quiet (h : Quiet s) :
    s.fetch now symbol request = (s.connector.nextId, s.asking symbol request) := by
  simp [fetch, asking, Binance.Connector.fetch, Gate.join, h.fetches, h.queue]

theorem fetched?_asking (now : Nat) :
    fetched? now s.connector.nextId (s.asking symbol request) = none := by
  simp [fetched?, asking, Binance.Connector.fetched?]

theorem fetched?_answered (h : Quiet s) (now : Nat) :
    fetched? now s.connector.nextId (s.answered symbol request l time) =
      some (s.rows symbol request, s.taken symbol request l time) := by
  simp [fetched?, answered, taken, Binance.Connector.fetched?, Binance.Connector.forgetFetch,
    h.fetches]

/-- A fetch that has its grant is made, and has its answer. -/
theorem step_fetch_granted
    (hgrant : s.connector.gate.limiter.acquire now = (.granted, l)) :
    system.step now (.inl (.fetch s.connector.nextId)) (s.asking symbol request) =
      some (s.answered symbol request l now) := by
  simp [system, System.beside, System.within, Binance.Connector.system, Binance.Connector.step,
    Binance.Connector.goFetch, Binance.Connector.request, Binance.Connector.log, Gate.acquire?,
    asking, answered, setConnector, rows, reply, hgrant]

/-- A fetch without a grant waits. -/
theorem step_fetch_waits (hgrant : s.connector.gate.limiter.acquire now = (.notBefore time, l)) :
    system.step now (.inl (.fetch s.connector.nextId)) (s.asking symbol request) = none := by
  simp [system, System.beside, System.within, Binance.Connector.system, Binance.Connector.step,
    Binance.Connector.goFetch, Gate.acquire?, asking, hgrant]

/-- While nobody asks the limiter for anything, nothing goes on. -/
theorem still_of_empty (hqueue : s.connector.gate.queue = []) (hrelay : Unused s.relay)
    (now n : Nat) : ∀ a ∈ [.inl (.fetch n), .inl .look, .inr (.client .reader)],
      system.step now a s = none := by
  have hfetch : system.step now (.inl (.fetch n)) s = none := by
    simp [system, System.beside, System.within, Binance.Connector.system, Binance.Connector.step,
      Binance.Connector.goFetch, Gate.acquire?, hqueue]
  simp only [List.forall_mem_cons, List.not_mem_nil, false_implies, implies_true, and_true]
  exact ⟨hfetch, step_look (by simp [hqueue]), step_reader hrelay⟩

/-- The only time that is waited for is the one at which the window loses its oldest grant. -/
theorem alarms_asking (h : Quiet s) {oldest : Nat} {rest : List Nat}
    (hrecent : s.connector.gate.limiter.recent = oldest :: rest) :
    system.alarms (s.asking symbol request) = [oldest + s.connector.gate.limiter.per] := by
  simp [system, System.beside, System.within, Binance.Connector.system, Relay.Network.system,
    Relay.Client.system, Gate.alarms, asking, hrecent, h.streams, h.relay.calls, h.relay.peers]

/-! ### The store -/

/-- The memory that is written to. -/
def keeping (s : Services) (m : Store.Memory) : Services := { s with backend := .memory m }

theorem keeping_self {m : Store.Memory} (h : s.backend = .memory m) : s.keeping m = s := by
  rw [keeping, ← h]

theorem storeBars_memory {m : Store.Memory} (hbackend : s.backend = .memory m) (now : Nat)
    (bars : List Bar) :
    (surroundings false).storeBars now bars s =
      (.ok bars.length, s.keeping (m.persistBars bars).2) := by
  rw [Collector.Surroundings.storeBars]
  split
  · rename_i hempty
    rw [List.isEmpty_iff] at hempty
    subst hempty
    exact congrArg (Prod.mk _) (keeping_self hbackend).symm
  · simp only [surroundings, persistBars, Backend.persistBars, hbackend]
    rfl

/-- The services after a pass. -/
def after (s : Services) (symbol : String) (request : HistoryRequest) (l : Limiter) (now : Nat)
    (m : Store.Memory) : Services :=
  (s.taken symbol request l now).keeping
    (World.keptOf Collector.binance symbol request.interval m (s.rows symbol request))

end Services

/-! ## A program with nothing but one pass -/

open Services (Quiet)

variable {w : Session} {s : Services} {id now time : Nat} {symbol : String}
  {request : HistoryRequest} {l : Limiter} {m : Store.Memory} {stage : Collector.PassStage}

/-- While nobody asks the limiter for anything, the services leave a pass where it is. -/
theorem others_still (hqueue : s.connector.gate.queue = []) (hrelay : Services.Unused s.relay)
    (now id : Nat) (symbol : String) (request : HistoryRequest) (stage : Collector.PassStage)
    (n : Nat) : ∀ a ∈ [.inr (.inl (.fetch n)), .inr (.inl .look), .inr (.inr (.client .reader))],
      (system false).step now a (alone w id symbol request stage s) = none := by
  have hstill := Services.still_of_empty hqueue hrelay now n
  simp only [List.forall_mem_cons, List.not_mem_nil, false_implies, implies_true, and_true]
    at hstill ⊢
  obtain ⟨hfetch, hlook, hreader⟩ := hstill
  rw [system, World.others_alone, World.others_alone, World.others_alone, hfetch, hlook, hreader]
  exact ⟨rfl, rfl, rfl⟩

theorem tasks_pass (hruns : w.runs = []) (hstreams : s.connector.streams = [])
    (hrelay : Services.Unused s.relay) (id : Nat) (symbol : String) (request : HistoryRequest)
    (stage : Collector.PassStage) :
    (system false).tasks (alone w id symbol request stage s) = .inl (.halt id) :: .inl (.goOn id) ::
      (s.connector.fetches.map fun f => .inr (.inl (.fetch f.id))) ++
        [.inr (.inl .look), .inr (.inr (.client .reader))] := by
  rw [system, World.tasks_alone hruns, Services.tasks_eq hstreams hrelay, List.map_append,
    List.map_map]
  rfl

/-- The tasks while there is one fetch. -/
theorem tasks_fetching (hruns : w.runs = []) (hstreams : s.connector.streams = [])
    (hrelay : Services.Unused s.relay) {n : Nat} {symbol' : String} {request' : HistoryRequest}
    {r : Option (Except VenueError (List Binance.Kline))}
    (hfetches : s.connector.fetches = [⟨n, symbol', request', r⟩]) (id : Nat) (symbol : String)
    (request : HistoryRequest) (stage : Collector.PassStage) :
    (system false).tasks (alone w id symbol request stage s) =
      [.inl (.halt id), .inl (.goOn id), .inr (.inl (.fetch n)), .inr (.inl .look),
        .inr (.inr (.client .reader))] := by
  rw [tasks_pass hruns hstreams hrelay, hfetches]
  rfl

theorem halt_waits : (system false).step now (.inl (.halt id))
    (alone w id symbol request stage s) = none := World.halt_alone

theorem finished_waits {r : Except Failure Nat} : (system false).step now (.inl (.goOn id))
    (alone w id symbol request (.finished r) s) = none := World.finished_waits

/-- A pass waits for its fetch. -/
theorem goOn_asking : (system false).step now (.inl (.goOn id))
    (alone w id symbol request (.fetching s.connector.nextId) (s.asking symbol request)) = none :=
  World.fetching_waits (Services.fetched?_asking now)

/-- The fetch of a pass is made as soon as it has its grant. -/
theorem round_asking (h : Quiet s) (hruns : w.runs = [])
    (hgrant : s.connector.gate.limiter.acquire now = (.granted, l)) (fuel : Nat) :
    (system false).runTasks now
        ((system false).tasks (alone w id symbol request (.fetching s.connector.nextId)
          (s.asking symbol request))) (fuel + 1)
        (alone w id symbol request (.fetching s.connector.nextId) (s.asking symbol request)) =
      (fuel, alone w id symbol request (.fetching s.connector.nextId)
        (s.answered symbol request l now)) := by
  have hstill := others_still (w := w) (s := s.answered symbol request l now) rfl h.relay now id
    symbol request (.fetching s.connector.nextId) s.connector.nextId
  have hfetch : (system false).step now (.inr (.inl (.fetch s.connector.nextId)))
      (alone w id symbol request (.fetching s.connector.nextId) (s.asking symbol request)) =
        some (alone w id symbol request (.fetching s.connector.nextId)
          (s.answered symbol request l now)) := by
    rw [system, World.others_alone, Services.step_fetch_granted hgrant]
    rfl
  have htasks := tasks_fetching (s := s.asking symbol request) hruns h.streams h.relay rfl id symbol
    request (.fetching s.connector.nextId)
  rw [htasks, System.runTasks_cons, System.runTask_of_none halt_waits, System.runTasks_cons,
    System.runTask_of_none goOn_asking, System.runTasks_cons, System.runTask_of_some hfetch,
    System.runTask_of_none (hstill _ List.mem_cons_self)]
  exact System.runTasks_of_still fun a ha => hstill a (List.mem_cons_of_mem _ ha)

/-- A pass whose fetch has its answer goes on to its end. -/
theorem round_answered (h : Quiet s) (hruns : w.runs = []) (hbackend : s.backend = .memory m)
    (now time id : Nat) (symbol : String) (request : HistoryRequest) (l : Limiter) (fuel : Nat) :
    ∃ left ≠ fuel + 2, (system false).runTasks now
        ((system false).tasks (alone w id symbol request (.fetching s.connector.nextId)
          (s.answered symbol request l time))) (fuel + 2)
        (alone w id symbol request (.fetching s.connector.nextId)
          (s.answered symbol request l time)) =
      (left, alone w id symbol request
        (.finished (resultOf Collector.binance symbol request.interval (s.rows symbol request)))
        (s.after symbol request l time m)) := by
  have hstill := others_still (w := w) (s := s.after symbol request l time m) rfl h.relay now id
    symbol request (.finished (resultOf Collector.binance symbol request.interval
      (s.rows symbol request))) s.connector.nextId
  have hgo : (system false).step now (.inl (.goOn id))
      (alone w id symbol request (.fetching s.connector.nextId)
        (s.answered symbol request l time)) =
      some (alone w id symbol request
        (stageOf Collector.binance symbol request.interval (s.rows symbol request))
        (s.taken symbol request l time)) :=
    World.fetching_goes (Services.fetched?_answered h now)
  have hgoOn : ∃ left ≠ fuel + 2, (system false).runTask now (.inl (.goOn id)) (fuel + 2)
      (alone w id symbol request (.fetching s.connector.nextId)
        (s.answered symbol request l time)) =
      (left, alone w id symbol request
        (.finished (resultOf Collector.binance symbol request.interval (s.rows symbol request)))
        (s.after symbol request l time m)) := by
    rw [System.runTask_of_some hgo]
    unfold Services.after
    cases s.rows symbol request with
    | error e =>
      refine ⟨fuel + 1, by omega, (System.runTask_of_none finished_waits).trans ?_⟩
      have hsame : (s.taken symbol request l time).keeping m = s.taken symbol request l time :=
        Services.keeping_self hbackend
      rw [World.keptOf, hsame]
      rfl
    | ok rows =>
      have hstore : (system false).step now (.inl (.goOn id)) (alone w id symbol request
          (.storing (Collector.binance.bars symbol request.interval rows))
          (s.taken symbol request l time)) = some (alone w id symbol request
            (.finished (.ok (Collector.binance.bars symbol request.interval rows).length))
            ((s.taken symbol request l time).keeping
              (m.persistBars (Collector.binance.bars symbol request.interval rows)).2)) :=
        World.storing_goes (Services.storeBars_memory (s := s.taken symbol request l time)
          hbackend now _)
      exact ⟨fuel, by omega,
        (System.runTask_of_some hstore).trans (System.runTask_of_none finished_waits)⟩
  obtain ⟨left, hleft, hrun⟩ := hgoOn
  refine ⟨left, hleft, ?_⟩
  have htasks := tasks_fetching (s := s.answered symbol request l time) hruns h.streams h.relay rfl
    id symbol request (.fetching s.connector.nextId)
  rw [htasks, System.runTasks_cons, System.runTask_of_none halt_waits, System.runTasks_cons,
    hrun]
  exact System.runTasks_of_still hstill

/-- A pass whose fetch has its grant goes to its end at once. -/
theorem settle_granted (h : Quiet s) (hruns : w.runs = []) (hbackend : s.backend = .memory m)
    (hgrant : s.connector.gate.limiter.acquire now = (.granted, l)) :
    (system false).settle ⟨now, alone w id symbol request (.fetching s.connector.nextId)
        (s.asking symbol request)⟩ =
      ⟨now, alone w id symbol request
        (.finished (resultOf Collector.binance symbol request.interval (s.rows symbol request)))
        (s.after symbol request l now m)⟩ := by
  obtain ⟨f, hf⟩ : ∃ f, patience = f + 3 := ⟨_, rfl⟩
  obtain ⟨left, hleft, hround⟩ := round_answered h hruns hbackend now now id symbol request l f
  refine congrArg (Timed.mk now) ?_
  -- the fetch is made in one round, the pass ends in the next, and the third one changes nothing
  rw [hf, System.settleWithin_of_round (round_asking h hruns hgrant (f + 2)) (by omega),
    System.settleWithin_of_round hround hleft]
  refine System.settleWithin_of_still ?_
  have hstill := others_still (w := w) (s := s.after symbol request l now m) rfl h.relay now id
    symbol request (.finished (resultOf Collector.binance symbol request.interval
      (s.rows symbol request))) s.connector.nextId
  have htasks := tasks_pass (s := s.after symbol request l now m) hruns h.streams h.relay id symbol
    request (.finished (resultOf Collector.binance symbol request.interval (s.rows symbol request)))
  rw [htasks, show (s.after symbol request l now m).connector.fetches = [] from h.fetches]
  exact List.forall_mem_cons.2 ⟨halt_waits, List.forall_mem_cons.2 ⟨finished_waits,
    fun a ha => hstill a (List.mem_cons_of_mem _ ha)⟩⟩

/-- A pass whose fetch has no grant waits. -/
theorem settle_waiting (h : Quiet s) (hruns : w.runs = [])
    (hwait : s.connector.gate.limiter.acquire now = (.notBefore time, l)) :
    (system false).settle ⟨now, alone w id symbol request (.fetching s.connector.nextId)
        (s.asking symbol request)⟩ =
      ⟨now, alone w id symbol request (.fetching s.connector.nextId)
        (s.asking symbol request)⟩ := by
  have hothers (a) (ha : Services.system.step now a (s.asking symbol request) = none) :
      (system false).step now (.inr a) (alone w id symbol request (.fetching s.connector.nextId)
        (s.asking symbol request)) = none := by
    rw [system, World.others_alone, ha]
    rfl
  have hlook : Services.system.step now (.inl .look) (s.asking symbol request) = none :=
    Services.step_look (by simp [Services.asking])
  have hreader : Services.system.step now (.inr (.client .reader)) (s.asking symbol request) =
      none := Services.step_reader h.relay
  refine System.settle_of_still ?_
  rw [tasks_fetching (s := s.asking symbol request) hruns h.streams h.relay rfl]
  simp only [List.forall_mem_cons, List.not_mem_nil, false_implies, implies_true, and_true]
  exact ⟨halt_waits, goOn_asking, hothers _ (Services.step_fetch_waits hwait), hothers _ hlook,
    hothers _ hreader⟩

/-- A pass comes to its end, after a while if the limiter has no room. -/
theorem await_pass (h : Quiet s) (hruns : w.runs = []) (hbackend : s.backend = .memory m)
    (now id : Nat) (symbol : String) (request : HistoryRequest) :
    ∃ now' l', l'.recent.length ≤ l'.rate ∧
      (system false).await (fun w => (w.result? id).isSome) ⟨now, alone w id symbol request
        (.fetching s.connector.nextId) (s.asking symbol request)⟩ =
      ⟨now', alone w id symbol request
        (.finished (resultOf Collector.binance symbol request.interval (s.rows symbol request)))
        (s.after symbol request l' now' m)⟩ := by
  obtain ⟨f, hf⟩ : ∃ f, patience = f + 2 := ⟨_, rfl⟩
  have hlast (n now : Nat) (l' : Limiter)
      (hgrant : s.connector.gate.limiter.acquire now = (.granted, l')) :
      (system false).awaitWithin (fun w => (w.result? id).isSome) (n + 1)
        ⟨now, alone w id symbol request (.fetching s.connector.nextId)
          (s.asking symbol request)⟩ =
      ⟨now, alone w id symbol request
        (.finished (resultOf Collector.binance symbol request.interval (s.rows symbol request)))
        (s.after symbol request l' now m)⟩ := by
    rw [System.awaitWithin, settle_granted h hruns hbackend hgrant]
    exact if_pos (by rw [World.result?_alone]; rfl)
  rw [System.await, hf]
  rcases Limiter.room now h.few with ⟨l', hgrant⟩ | ⟨oldest, rest, time, l', l'', hrecent, hlt,
    hwait, hgrant⟩
  · exact ⟨now, l', Limiter.few_of_granted hgrant, hlast _ _ _ hgrant⟩
  · have halarm : (system false).nextAlarm? ⟨now, alone w id symbol request
        (.fetching s.connector.nextId) (s.asking symbol request)⟩ =
          some (oldest + s.connector.gate.limiter.per) := by
      rw [System.nextAlarm?, system, World.alarms_alone, Services.alarms_asking h hrecent,
        List.filter_cons_of_pos (by simpa using hlt)]
      rfl
    rw [System.awaitWithin, settle_waiting h hruns hwait, World.result?_alone, halarm]
    exact ⟨_, l'', Limiter.few_of_granted hgrant, hlast f _ _ hgrant⟩

/-! ## The pass -/

/-- A program that keeps its rows in memory, with nothing under way. -/
structure Ready (w : Session) (m : Store.Memory) : Prop where
  jobs : w.jobs = []
  runs : w.runs = []
  quiet : Quiet w.around
  backend : w.around.backend = .memory m

/-- A pass of a program that does nothing else asks the venue once, comes to its end, and leaves the
program with nothing under way. -/
theorem pass_of_ready {t : Timed Session} (h : Ready t.world m) (symbol : String)
    (request : HistoryRequest) :
    let reply := t.world.around.reply symbol request
    let answer := Binance.klinesOf reply.1
    ∃ t', World.pass Collector.binance (Services.surroundings false) Services.system t symbol
        request = (resultOf Collector.binance symbol request.interval answer, t') ∧
      Ready t'.world (World.keptOf Collector.binance symbol request.interval m answer) ∧
      t'.world.around.connector.config = t.world.around.connector.config ∧
      t'.world.around.connector.server = reply.2 := by
  intro reply answer
  obtain ⟨now, w⟩ := t
  obtain ⟨hjobs, hruns, hquiet, hbackend⟩ := h
  have hstart : w.startPass (Services.surroundings false) now symbol request =
      (w.nextId, alone { w with nextId := w.nextId + 1 } w.nextId symbol request
        (.fetching w.around.connector.nextId) (w.around.asking symbol request)) := by
    simp only [World.startPass, World.addJob, alone, Services.surroundings,
      Services.fetch_of_quiet hquiet]
    rw [show w.jobs = [] from hjobs]
    rfl
  obtain ⟨now', l', hfew, hawait⟩ := await_pass (w := { w with nextId := w.nextId + 1 }) hquiet
    hruns hbackend now w.nextId symbol request
  have hpass : World.pass Collector.binance (Services.surroundings false) Services.system ⟨now, w⟩
      symbol request = (resultOf Collector.binance symbol request.interval answer, ⟨now',
        { w with nextId := w.nextId + 1, jobs := [], around :=
          w.around.after symbol request l' now' m }⟩) := by
    simp only [World.pass, hstart]
    rw [← system, hawait, World.result?_alone]
    simp [World.forget, alone, Timed.update, Services.rows, answer, reply]
  have hunopened (other : String) : Binance.VenueCall.opened other ∉
      (w.around.connector.calls ++ [(now', Binance.VenueCall.request symbol)]).map Prod.snd := by
    have hbefore := hquiet.unopened other
    simpa using hbefore
  exact ⟨_, hpass, ⟨rfl, hruns, ⟨hquiet.fetches, hquiet.streams, rfl, hfew, hunopened,
    hquiet.relay⟩, rfl⟩, rfl, rfl⟩

/-- All that the servers see of such a program are its requests for history. -/
theorem Ready.trace (h : Ready w m) (servers : Servers) :
    Trace.of servers w.around = ⟨w.around.connector.server.requests, [], [], []⟩ := by
  have hstreams : w.around.streamTargets servers.streams = [] := by
    rw [Services.streamTargets, List.eq_nil_iff_forall_not_mem]
    intro target htarget
    obtain ⟨url, hurl, -⟩ := List.mem_filterMap.1 htarget
    obtain ⟨⟨time, call⟩, hcall, hopened⟩ := List.mem_filterMap.1 hurl
    cases call with
    | request symbol => cases hopened
    | opened symbol => exact h.quiet.unopened symbol (List.mem_map.2 ⟨_, hcall, rfl⟩)
  have hrelay : w.around.relaySeen = [] := by
    simp [Services.relaySeen, Relay.Network.allPeers, h.quiet.relay.connections]
  rw [Trace.of, hstreams, hrelay, h.backend]
  rfl

end Ingestion
end MarketFeed
