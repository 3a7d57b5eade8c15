import MarketFeed.Collector.Script
import MarketFeed.Proofs.Collector.Ingest
import MarketFeed.Proofs.Collector.Lockstep
import Mathlib.Data.List.Forall2

/-!
# MarketFeed.Proofs.Collector.Batches

The batches of a collector are written before they are sent on.

* `Ingests` — what is seen of the batches of a loop after a history.
* `batches_ingested` — every loop of every collector, whatever happens: the calls that its batches
  cause, that all of them come, and that they do not depend on what the downstream answers.
* `SameButAnswers`, `script_alike` — scripts that differ in the answers of the downstream only.
-/

namespace MarketFeed
namespace Collector
namespace World

section

variable {σ ι ρ τ : Type}

/-- What is seen of the batches of a loop after a history. -/
structure Ingests (V : Venue ι ρ τ) (S : Surroundings σ ι ρ τ) (id : Nat)
    (h : List (Incident (Timed (Watched σ ι τ)) (Event σ ι))) (t : Timed (Watched σ ι τ)) :
    Prop where
  /-- Every batch has its calls, one batch after another, the last one perhaps not all of them. -/
  inOrder : Ingesting S.downstream.isSome (batches V id h) (ingests id h)
  /-- It has all of them unless it is under way. -/
  all : Rests ((t.world.job? id).map Job.work) →
    IngestedAll S.downstream.isSome (batches V id h) (ingests id h)
  /-- While a batch is under way the loop does not wait, and it does not look for the stop. -/
  ready : ¬ Rests ((t.world.job? id).map Job.work) →
    happens V S (.move (.goOn id)) t ≠ none ∧ happens V S (.move (.halt id)) t = none

variable {V : Venue ι ρ τ} {S : Surroundings σ ι ρ τ} {config : Config ι} {a : σ} {start : Nat}
  {h : List (Incident (Timed (Watched σ ι τ)) (Event σ ι))} {t : Timed (Watched σ ι τ)}

theorem ingests_of_history (hist : History (happens V S) ⟨start, .new config (a, [])⟩ h t)
    (id : Nat) : Ingests V S id h t := by
  have hstanding := standing_of_history hist id
  refine ⟨hstanding.ingesting, hstanding.all, fun hbusy => ?_⟩
  cases hj : t.world.job? id with
  | none => exact absurd (hj ▸ rests_none) hbusy
  | some j =>
    rw [hj, Option.map_some] at hbusy
    exact ready_of_ingesting hj (by by_contra hn; exact hbusy (rests_some (by simpa using hn)))

/-- The log is what the incidents wrote to it, and each call that passes ticks on belongs to the
streaming loop that went on. -/
theorem log_of_history (hist : History (happens V S) ⟨start, .new config (a, [])⟩ h t) :
    t.world.around.2 = h.flatMap callsAt ∧
      ∀ x ∈ h, ∀ c ∈ callsAt x, c.passesTicks = true → ∃ j instrument stage,
        x.event = .move (.goOn j.id) ∧ x.before.world.job? j.id = some j ∧
        j.work = .stream instrument stage ∧ c ∈ ingestsAt j.id x := by
  induction hist with
  | nil => exact ⟨rfl, fun x hx => absurd hx List.not_mem_nil⟩
  | @snoc h t t' e hist he ih =>
    obtain ⟨hlog, hpasses⟩ := log_of_happens (sound_of_history hist) he
    refine ⟨?_, ?_⟩
    · rw [flatMap_concat, ← ih.1, hlog]
    · intro x hx c hc hp
      rcases List.mem_append.1 hx with hx | hx
      · exact ih.2 x hx c hc hp
      · obtain rfl := List.mem_singleton.1 hx
        obtain ⟨j, instrument, stage, rfl, hj, hw⟩ := hpasses ⟨c, hc, hp⟩
        refine ⟨j, instrument, stage, rfl, hj, hw, ?_⟩
        have hmine : ingestsAt j.id ⟨t, .move (.goOn j.id), t'⟩ =
            (callsAt ⟨t, .move (.goOn j.id), t'⟩).filter Call.passesTicks := if_pos rfl
        rw [hmine]
        exact List.mem_filter.2 ⟨hc, hp⟩

end

/-- The batches of a new collector, whatever happens to it:

* each causes its calls, in order: it is written, once more if that failed, and sent on once it was
  written; no other calls pass ticks on;
* a loop that is treated justly makes all calls of a batch before it makes the next;
* the calls are the same among surroundings that differ in the answers of the downstream only. -/
theorem batches_ingested {σ ι ρ τ : Type} (V : Venue ι ρ τ) (S : Surroundings σ ι ρ τ)
    (config : Config ι) (a : σ) (start : Nat) :
    (∀ h t, History (happens V S) ⟨start, .new config (a, [])⟩ h t →
      (∀ id, Ingests V S id h t) ∧ t.world.around.2 = h.flatMap callsAt ∧
      ∀ x ∈ h, ∀ c ∈ callsAt x, c.passesTicks = true → ∃ j instrument stage,
        x.event = .move (.goOn j.id) ∧ x.before.world.job? j.id = some j ∧
        j.work = .stream instrument stage ∧ c ∈ ingestsAt j.id x) ∧
    (∀ t e id, t 0 = ⟨start, .new config (a, [])⟩ → Endless (happens V S) t e →
      Just (happens V S) t e (.move (.goOn id)) → ∀ i, ∃ k, i ≤ k ∧
        batches V id (incidents t e k) = batches V id (incidents t e i) ∧
        IngestedAll S.downstream.isSome (batches V id (incidents t e k))
          (ingests id (incidents t e k))) ∧
    (∀ (σ' : Type) (R : σ → σ' → Prop) (S' : Surroundings σ' ι ρ τ) (a' : σ'), Alike R S S' →
      R a a' → ∀ es es', List.Forall₂ (SameEvent R) es es' →
        Option.Rel (fun r r' => List.Forall₂ SameCalls r.1 r'.1)
          (History.replay (happens V S) es ⟨start, .new config (a, [])⟩)
          (History.replay (happens V S') es' ⟨start, .new config (a', [])⟩)) := by
  refine ⟨fun h t hist => ⟨ingests_of_history hist, log_of_history hist⟩, ?_, ?_⟩
  · intro t e id hstart hend hjust i
    have hhist (k : Nat) :
        History (happens V S) ⟨start, .new config (a, [])⟩ (incidents t e k) (t k) :=
      hstart ▸ hend.history k
    cases hj : (t i).world.job? id with
    | none => exact ⟨i, Nat.le_refl i, rfl, (ingests_of_history (hhist i) id).all (hj ▸ rests_none)⟩
    | some j =>
      obtain ⟨k, hk, hrests, hsame⟩ :=
        rests_finally hend (fun k => sound_of_history (hhist k)) hjust hj
      exact ⟨k, hk, hsame, (ingests_of_history (hhist k) id).all hrests⟩
  · intro σ' R S' a' halike ha es es' hes
    have hboth := replay_alike (V := V) halike hes
      (⟨rfl, (a', []), ⟨ha, rfl⟩, rfl⟩ : SameState R ⟨start, .new config (a, [])⟩
        ⟨start, .new config (a', [])⟩)
    revert hboth
    generalize History.replay (happens V S) es _ = r
    generalize History.replay (happens V S') es' _ = r'
    rintro (⟨hcalls, -⟩ | _)
    · exact .some hcalls
    · exact .none

end World

/-! ## Scripts -/

/-- Scripts that differ in the answers of the downstream only. -/
structure SameButAnswers {ρ τ : Type} (s s' : Script ρ τ) : Prop where
  fetches : s'.fetches = s.fetches
  openings : s'.openings = s.openings
  barFailures : s'.barFailures = s.barFailures
  tickFailures : s'.tickFailures = s.tickFailures
  pending : s'.pending = s.pending
  streams : s'.streams = s.streams
  results : List.Forall₂ (fun p p' => p'.1 = p.1) s.results s'.results
  nextId : s'.nextId = s.nextId
  memory : s'.memory = s.memory

theorem results_find? {α β : Type} {l : List (Nat × α)} {l' : List (Nat × β)}
    (h : List.Forall₂ (fun p p' => p'.1 = p.1) l l') (id : Nat) :
    Option.Rel (fun _ _ => True) (l.find? (·.1 = id)) (l'.find? (·.1 = id)) ∧
      List.Forall₂ (fun p p' => p'.1 = p.1) (l.filter (·.1 ≠ id)) (l'.filter (·.1 ≠ id)) := by
  induction h with
  | nil => exact ⟨.none, .nil⟩
  | @cons p p' l l' hp _ ih =>
    by_cases hid : p.1 = id
    · have hid' : p'.1 = id := hp.trans hid
      simp only [List.find?_cons, List.filter_cons, hid, hid', decide_true, ne_eq, not_true,
        decide_false, Bool.false_eq_true, if_false]
      exact ⟨.some trivial, by simpa using ih.2⟩
    · have hid' : ¬ p'.1 = id := fun h => hid (hp.symm.trans h)
      simp only [List.find?_cons, List.filter_cons, hid, hid', decide_false, ne_eq,
        not_false_eq_true, decide_true, if_true]
      exact ⟨by simpa using ih.1, .cons hp (by simpa using ih.2)⟩

theorem script_alike {ι ρ τ : Type} (display : ι → String) (hasDownstream : Bool) :
    Alike SameButAnswers
      (Script.surroundings display hasDownstream : Surroundings (Script ρ τ) ι ρ τ)
      (Script.surroundings display hasDownstream) where
  fetch := by
    rintro now instrument request ⟨⟩ ⟨⟩ ⟨rfl, rfl, rfl, rfl, rfl, rfl, hresults, rfl, rfl⟩
    exact ⟨rfl, rfl, rfl, rfl, rfl, rfl, rfl, hresults, rfl, rfl⟩
  fetched? := by
    rintro now n ⟨⟩ ⟨⟩ ⟨rfl, rfl, rfl, rfl, rfl, rfl, hresults, rfl, rfl⟩
    simp only [Script.surroundings, Script.fetched?]
    split
    · exact .none
    · split
      · exact .some ⟨rfl, rfl, rfl, rfl, rfl, rfl, rfl, hresults, rfl, rfl⟩
      · exact .none
  openStream := by
    rintro now instrument ⟨⟩ ⟨⟩ ⟨rfl, rfl, rfl, rfl, rfl, rfl, hresults, rfl, rfl⟩
    simp only [Script.surroundings, Script.openStream, Script.log]
    split <;> exact ⟨rfl, rfl, rfl, rfl, rfl, rfl, rfl, hresults, rfl, rfl⟩
  receive := by
    rintro stream ⟨⟩ ⟨⟩ ⟨rfl, rfl, rfl, rfl, rfl, rfl, hresults, rfl, rfl⟩
    simp only [Script.surroundings, Script.receive, Script.onStream]
    split <;> exact ⟨rfl, rfl, rfl, rfl, rfl, rfl, rfl, hresults, rfl, rfl⟩
  dropStream := by
    rintro stream ⟨⟩ ⟨⟩ ⟨rfl, rfl, rfl, rfl, rfl, rfl, hresults, rfl, rfl⟩
    exact ⟨rfl, rfl, rfl, rfl, rfl, rfl, hresults, rfl, rfl⟩
  persistBars := by
    rintro now bars ⟨⟩ ⟨⟩ ⟨rfl, rfl, rfl, rfl, rfl, rfl, hresults, rfl, rfl⟩
    simp only [Script.surroundings, Script.persistBars, Script.log]
    split <;> exact ⟨rfl, rfl, rfl, rfl, rfl, rfl, rfl, hresults, rfl, rfl⟩
  persistTicks := by
    rintro now batch ⟨⟩ ⟨⟩ ⟨rfl, rfl, rfl, rfl, rfl, rfl, hresults, rfl, rfl⟩
    simp only [Script.surroundings, Script.persistTicks, Script.log]
    split <;> exact ⟨rfl, rfl, rfl, rfl, rfl, rfl, rfl, hresults, rfl, rfl⟩
  downstream := by
    cases hasDownstream with
    | false => exact .none
    | true =>
      refine .some ⟨?_, ?_⟩
      · rintro now batch ⟨⟩ ⟨⟩ ⟨rfl, rfl, rfl, rfl, rfl, rfl, hresults, rfl, rfl⟩
        refine ⟨rfl, rfl, rfl, rfl, rfl, rfl, rfl, ?_, rfl, rfl⟩
        exact List.rel_append hresults (.cons rfl .nil)
      · rintro n ⟨⟩ ⟨⟩ ⟨rfl, rfl, rfl, rfl, rfl, rfl, hresults, rfl, rfl⟩
        obtain ⟨hfind, hrest⟩ := results_find? hresults n
        exact rel_map hfind fun _ _ _ => ⟨rfl, rfl, rfl, rfl, rfl, rfl, hrest, rfl, rfl⟩

/-! ## Two trades and a store that fails three times -/

namespace Sample

def trade (id : UInt64) (price : Decimal) : Binance.Trade :=
  ⟨1, "BTCUSDT", id, price, (Decimal.ofUnits? 1 0).getD .zero, 1, false⟩

def price : Decimal := (Decimal.ofUnits? 1000 1).getD .zero

def nextPrice : Decimal := (Decimal.ofUnits? 1001 1).getD .zero

/-- Batches of one trade. -/
def config : Config String := { Config.default with live := ["BTCUSDT"], tickBatchSize := 1 }

/-- The first batch is written in the second attempt, the second in none. -/
def script (answers : List (Option String)) : Script Binance.Kline Binance.Trade :=
  .new .none ⟨[("BTCUSDT", [.trades [trade 7 price, trade 8 nextPrice] false])]⟩ .none
    ⟨[("BTCUSDT", [some (.database "gone"), none, some (.database "gone"),
      some (.database "gone")])]⟩ (some ⟨[("BTCUSDT", answers)]⟩)

def surroundings : Surroundings (Script Binance.Kline Binance.Trade) String Binance.Kline
    Binance.Trade :=
  Script.surroundings id true

def new (answers : List (Option String)) :
    Timed (World.Watched (Script Binance.Kline Binance.Trade) String Binance.Trade) :=
  ⟨0, .new config (script answers, [])⟩

/-- The loop opens its stream and goes on as long as it can. -/
def schedule : List (World.Event (Script Binance.Kline Binance.Trade) String) :=
  .start :: List.replicate 9 (.move (.goOn 1))

/-- The prices of the ticks that a call passes on, and what the store answers. -/
def told : Call String Binance.Trade → List Decimal × Option Bool
  | .storeTicks batch ok => (batch.map Tick.price, some ok)
  | .publish batch => (batch.map Tick.price, none)
  | _ => ([], none)

/-- What the downstream answered. -/
def answered (s : Script Binance.Kline Binance.Trade) : List Bool :=
  s.events.filterMap fun e =>
    match e.2 with
    | .published _ ok => some ok
    | _ => none

/-- The prices in the batches of the loop, and the calls by which it passes ticks on. -/
structure Seen where
  batches : List (List Decimal)
  calls : List (List Decimal × Option Bool)
  deriving DecidableEq

def seen (h : List (Incident (Timed (World.Watched (Script Binance.Kline Binance.Trade) String
    Binance.Trade)) (World.Event (Script Binance.Kline Binance.Trade) String))) :
    Seen :=
  ⟨(World.batches binance 1 h).map (·.map Tick.price), (World.ingests 1 h).map told⟩

/-- What the schedule comes to, and what it has come to when the first trade was taken. -/
theorem replay_schedule :
    (History.replay (World.happens binance surroundings) schedule (new [])).map (fun r =>
      (seen r.1, seen (r.1.take 3), answered r.2.world.around.1,
        (World.happens binance surroundings (.move (.goOn 1)) r.2).isNone)) =
      some (⟨[[price], [nextPrice]], [([price], some false), ([price], some true), ([price], none),
        ([nextPrice], some false), ([nextPrice], some false)]⟩, ⟨[[price]], []⟩, [true], true) := by
  decide +kernel

/-- The same schedule with a downstream that fails. -/
theorem replay_unanswered :
    (History.replay (World.happens binance surroundings) schedule (new [some "down"])).map (fun r =>
      answered r.2.world.around.1) = some [false] := by
  decide +kernel

theorem sameEvents : List.Forall₂ (World.SameEvent SameButAnswers) schedule schedule :=
  .cons .start (List.forall₂_same.2 fun e he => by
    rw [List.eq_of_mem_replicate he]
    exact .move _)

theorem sameScripts (answers answers' : List (Option String)) :
    SameButAnswers (script answers) (script answers') :=
  ⟨rfl, rfl, rfl, rfl, rfl, rfl, .nil, rfl, rfl⟩

end Sample

/-- The first batch is written in the second attempt and then sent on, the second batch is lost. A
downstream that fails makes no difference. -/
theorem batches_ingested_retried : ∃ h t, History (World.happens binance Sample.surroundings)
      (Sample.new []) h t ∧ World.Ingests binance Sample.surroundings 1 h t ∧
      Sample.seen h = ⟨[[Sample.price], [Sample.nextPrice]],
        [([Sample.price], some false), ([Sample.price], some true), ([Sample.price], none),
          ([Sample.nextPrice], some false), ([Sample.nextPrice], some false)]⟩ ∧
      (∃ s e k, Endless (World.happens binance Sample.surroundings) s e ∧ s 0 = Sample.new [] ∧
        3 ≤ k ∧ Sample.seen (incidents s e 3) = ⟨[[Sample.price]], []⟩ ∧
        World.batches binance 1 (incidents s e k) = World.batches binance 1 (incidents s e 3) ∧
        World.IngestedAll true (World.batches binance 1 (incidents s e k))
          (World.ingests 1 (incidents s e k))) ∧
      ∃ h' t', History.replay (World.happens binance Sample.surroundings) Sample.schedule
          (Sample.new [some "down"]) = some (h', t') ∧
        Sample.answered t.world.around.1 = [true] ∧ Sample.answered t'.world.around.1 = [false] ∧
        List.Forall₂ World.SameCalls h h' := by
  obtain ⟨hall, hfair, halike⟩ := World.batches_ingested binance Sample.surroundings Sample.config
    (Sample.script []) 0
  obtain ⟨⟨h, t⟩, hr, heq⟩ := Option.map_eq_some_iff.1 Sample.replay_schedule
  simp only [Prod.mk.injEq] at heq
  obtain ⟨hseen, hfirst, hanswered, hwaits⟩ := heq
  have hist := History.of_replay hr
  refine ⟨h, t, hist, (hall h t hist).1 1, hseen, ?_, ?_⟩
  · have hrest : Endless (World.happens binance Sample.surroundings) (fun _ => t)
        (fun _ => .wait t.now) := ⟨fun _ => if_pos (Nat.le_refl t.now)⟩
    obtain ⟨s, e, hend, hstart, hinc, hlate, -⟩ := hrest.of_replay hr rfl
    have hjust : Just (World.happens binance Sample.surroundings) s e (.move (.goOn 1)) := by
      intro i
      refine ⟨i + Sample.schedule.length, Nat.le_add_right _ _, .inr ?_⟩
      rw [(hlate i).1]
      exact Option.isNone_iff_eq_none.1 hwaits
    obtain ⟨k, hk, hsame, hingested⟩ := hfair s e 1 hstart hend hjust 3
    have hthree : incidents s e 3 = h.take 3 := by
      rw [← hinc, incidents, incidents, ← List.map_take, List.take_range]
      rfl
    exact ⟨s, e, k, hend, hstart, hk, hthree ▸ hfirst, hsame, hingested⟩
  · have hboth := halike _ SameButAnswers Sample.surroundings (Sample.script [some "down"])
      (script_alike id true) (Sample.sameScripts _ _) _ _ Sample.sameEvents
    obtain ⟨⟨h', t'⟩, hr', heq'⟩ := Option.map_eq_some_iff.1 Sample.replay_unanswered
    refine ⟨h', t', hr', hanswered, heq', ?_⟩
    obtain ⟨r, hr₂, hcalls⟩ := rel_some_left (hr ▸ hboth)
    cases hr'.symm.trans hr₂
    exact hcalls

end Collector
end MarketFeed
