import MarketFeed.Proofs.Collector.Trades
import MarketFeed.Proofs.Store.Upsert
import MarketFeed.Proofs.Time.Instant
import Mathlib.Data.List.Flatten

/-!
# MarketFeed.Proofs.Collector.Keeping

What a store keeps of the trades that a collector takes.

* `Remembers` — a store that keeps its ticks in memory, which nothing else changes.
* `written`, `remembered_of_history` — it keeps, under each key, the tick that was written last.
* `written_of_ingested`, `written_of_rest` — where no write fails, all that a loop takes is written.
* `Binance.Trade.Twin`, `Says`, `told_of_written` — what a tick that was written says of a trade.
* `ticks_kept` — of the trades with one symbol and one time, the last one is kept, and of a trade
  without a twin its own tick.
* `trades_merged` — two trades of one symbol and one millisecond, of which only the second is kept.
-/

namespace MarketFeed
namespace Collector

/-- The batch that a call wrote. -/
def Call.written? {ι τ : Type} : Call ι τ → Option (List Tick)
  | .storeTicks batch true => some batch
  | _ => none

/-- The ticks that some calls wrote, one after another. -/
def written {ι τ : Type} (calls : List (Call ι τ)) : List Tick :=
  (calls.filterMap Call.written?).flatten

/-- Surroundings with a store that keeps its ticks in memory. -/
structure Remembers {σ ι ρ τ : Type} (S : Surroundings σ ι ρ τ) (memory : σ → Store.Memory) :
    Prop where
  stores : ∀ now batch s n s', S.persistTicks now batch s = (.ok n, s') →
    (memory s').ticks = Store.upsertAll Tick.key batch (memory s).ticks
  refuses : ∀ now batch s e s', S.persistTicks now batch s = (.error e, s') →
    (memory s').ticks = (memory s).ticks
  fetch : ∀ now instrument request s n s', S.fetch now instrument request s = (n, s') →
    (memory s').ticks = (memory s).ticks
  fetched : ∀ now n s r s', S.fetched? now n s = some (r, s') → (memory s').ticks = (memory s).ticks
  opens : ∀ now instrument s r s', S.openStream now instrument s = (r, s') →
    (memory s').ticks = (memory s).ticks
  receives : ∀ stream s r s', S.receive stream s = (r, s') → (memory s').ticks = (memory s).ticks
  drops : ∀ stream s, (memory (S.dropStream stream s)).ticks = (memory s).ticks
  persistBars : ∀ now bars s r s', S.persistBars now bars s = (r, s') →
    (memory s').ticks = (memory s).ticks
  publish : ∀ d, S.downstream = some d → ∀ now batch s n s', d.publish now batch s = (n, s') →
    (memory s').ticks = (memory s).ticks
  published : ∀ d, S.downstream = some d → ∀ n s r s', d.published? n s = some (r, s') →
    (memory s').ticks = (memory s).ticks

section

variable {σ ι ρ τ : Type} {V : Venue ι ρ τ} {S : Surroundings σ ι ρ τ} {memory : σ → Store.Memory}

theorem written_append (calls calls' : List (Call ι τ)) :
    written (calls ++ calls') = written calls ++ written calls' := by
  rw [written, List.filterMap_append, List.flatten_append]
  rfl

theorem Remembers.gathers (h : Remembers S memory) {stream n : Nat} {s s' : σ} {trades : List τ}
    (hg : S.gather stream n s = (trades, s')) : (memory s').ticks = (memory s).ticks := by
  induction n generalizing s trades with
  | zero =>
    cases hg
    rfl
  | succ n ih =>
    rw [Surroundings.gather_succ] at hg
    cases hr : S.receive stream s with
    | mk r s₁ =>
      rw [hr] at hg
      cases r with
      | item trade =>
        cases hrest : S.gather stream n s₁ with
        | mk rest s₂ =>
          dsimp only at hg
          rw [hrest] at hg
          cases hg
          exact (ih hrest).trans (h.receives _ _ _ _ hr)
      | empty =>
        cases hg
        exact h.receives _ _ _ _ hr
      | ended =>
        cases hg
        exact h.receives _ _ _ _ hr

namespace World

variable {now : Nat} {w : Watched σ ι τ} {work work' : Work ι} {calls : List (Call ι τ)} {s : σ}

theorem written_receives (stream : Nat) (trades : List τ) :
    written (trades.map (Call.receive (ι := ι) stream)) = [] := by
  have hnone : (trades.map (Call.receive (ι := ι) stream)).filterMap Call.written? = [] := by
    rw [List.filterMap_map]
    exact List.filterMap_eq_nil_iff.2 fun _ _ => rfl
  rw [written, hnone]
  rfl

/-- What is written is kept, and nothing else changes what is kept. -/
def Keeping (memory : σ → Store.Memory) (s : σ) (calls : List (Call ι τ)) (s' : σ) : Prop :=
  (memory s').ticks = Store.upsertAll Tick.key (written calls) (memory s).ticks

theorem PassGoes.keeping {s s' : σ} {instrument : ι} {interval : Interval}
    {stage stage' : PassStage} (hm : Remembers S memory)
    (h : PassGoes V S now s instrument interval stage calls s' stage') :
    Keeping memory s calls s' := by
  cases h with
  | fetches h => exact hm.fetched _ _ _ _ _ h
  | fails h => exact hm.fetched _ _ _ _ _ h
  | skips => exact rfl
  | stores _ h => exact hm.persistBars _ _ _ _ _ h

theorem PollGoes.keeping {instrument : ι} {interval : Interval} {stage : PollStage}
    (hm : Remembers S memory) (h : PollGoes V S now w instrument interval stage calls s work) :
    Keeping memory w.around.1 calls s := by
  cases h with
  | asks _ h => exact hm.fetch _ _ _ _ _ _ h
  | passes h => exact h.keeping hm
  | _ => exact rfl

theorem LoopGoes.keeping {instrument : ι} {stage : StreamStage} (hm : Remembers S memory)
    (h : LoopGoes V S now w instrument stage calls s work) :
    Keeping memory w.around.1 calls s := by
  cases h with
  | stops _ | restarts _ | keeps _ => exact rfl
  | opens _ ho | fails _ ho => exact hm.opens _ _ _ _ _ ho
  | passesOver hr hg _ | takes hr hg _ =>
    rw [Keeping, written_receives]
    exact (hm.gathers hg).trans (hm.receives _ _ _ _ hr)
  | ends hr => exact (hm.drops _ _).trans (hm.receives _ _ _ _ hr)
  | @stores _ _ batch _ _ h =>
    have hwritten : written [(.storeTicks batch true : Call ι τ)] = batch := List.append_nil batch
    rw [Keeping, hwritten]
    exact hm.stores _ _ _ _ _ h
  | retries h | loses h => exact hm.refuses _ _ _ _ _ h
  | forwards hd hp => exact hm.publish _ hd _ _ _ _ _ hp
  | resumes h =>
    rcases h with ⟨-, rfl⟩ | ⟨d, r, hd, hp⟩
    · exact rfl
    · exact hm.published d hd _ _ _ _ hp

theorem WorkGoes.keeping (hm : Remembers S memory) (h : WorkGoes V S now w work calls s work') :
    Keeping memory w.around.1 calls s := by
  cases h with
  | pass h => exact h.keeping hm
  | poll h => exact h.keeping hm
  | stream h => exact h.keeping hm

theorem Halts.keeping {s' : σ} (hm : Remembers S memory) (h : Halts S s work calls s') :
    Keeping memory s calls s' := by
  cases h with
  | receive => exact hm.drops _ s
  | _ => exact rfl

variable {t t' : Timed (Watched σ ι τ)} {e : Event σ ι}
  {h : List (Incident (Timed (Watched σ ι τ)) (Event σ ι))} {config : Config ι} {a : σ}
  {start : Nat}

/-- Whatever changes around a collector, it is not what the store keeps. -/
def Quiet (memory : σ → Store.Memory) (h : List (Incident (Timed (Watched σ ι τ)) (Event σ ι))) :
    Prop :=
  ∀ x ∈ h, ∀ s, x.event = .around s → (memory s).ticks = (memory x.before.world.around.1).ticks

theorem keeping_of_happens (hm : Remembers S memory) (hsound : Sound t.world)
    (he : happens V S e t = some t')
    (hquiet : ∀ s, e = .around s → (memory s).ticks = (memory t.world.around.1).ticks) :
    Keeping memory t.world.around.1 (callsAt ⟨t, e, t'⟩) t'.world.around.1 := by
  cases occurs_of_happens hsound he with
  | goes hj hg =>
    rw [callsAt_of_log rfl]
    exact hg.keeping hm
  | halts hj hstopped hh =>
    rw [callsAt_of_log rfl]
    exact hh.keeping hm
  | fetches hf =>
    rw [callsAt_of_log rfl]
    exact hm.fetch _ _ _ _ _ _ hf
  | starts =>
    have haround : (t.update fun w => w.start.2).world.around = t.world.around := log_start t.world
    have hlog := (congrArg Prod.snd haround).trans (List.append_nil t.world.around.2).symm
    rw [callsAt_of_log hlog, Keeping, haround]
    rfl
  | changes s =>
    rw [callsAt_of_log (List.append_nil _).symm]
    exact hquiet s rfl
  | _ =>
    rw [callsAt_of_log (List.append_nil _).symm]
    exact rfl

/-- The store keeps what the log says was written, of ticks with one key the last. -/
theorem remembered_of_history (hm : Remembers S memory)
    (hist : History (happens V S) ⟨start, .new config (a, [])⟩ h t) (hquiet : Quiet memory h) :
    Keeping memory a t.world.around.2 t.world.around.1 := by
  induction hist with
  | nil => exact rfl
  | @snoc h t t' e hist he ih =>
    have hsound := sound_of_history hist
    have hbefore := ih fun x hx => hquiet x (List.mem_append_left _ hx)
    have hnext := keeping_of_happens hm hsound he
      (hquiet ⟨t, e, t'⟩ (List.mem_append_right _ (List.mem_singleton_self _)))
    rw [Keeping, (log_of_happens hsound he).1, written_append, Store.upsertAll_append, ← hbefore]
    exact hnext

/-! ## What is written -/

/-- Where no write fails, each batch is written once. -/
theorem written_of_ingested {sends : Bool} {batches : List (List Tick)} {calls : List (Call ι τ)}
    (h : IngestedAll sends batches calls) (hok : ∀ batch, Call.storeTicks batch false ∉ calls) :
    written calls = batches.flatten := by
  have hsent (batch : List Tick) : written (sent sends batch : List (Call ι τ)) = [] := by
    cases sends <;> rfl
  induction h with
  | nil => rfl
  | @snoc batches batch calls calls' _ hb ih =>
    rw [written_append, ih fun b hb => hok b (List.mem_append_left _ hb), List.flatten_append]
    congr 1
    cases hb with
    | empty hnil => simp [hnil, written]
    | stored _ =>
      rw [written_append, hsent, List.append_nil]
      rfl
    | retried _ => exact absurd (List.mem_append_right _ (by simp)) (hok batch)
    | lost _ => exact absurd (List.mem_append_right _ (by simp)) (hok batch)

theorem ingests_sublist (id : Nat)
    (h : List (Incident (Timed (Watched σ ι τ)) (Event σ ι))) :
    (ingests id h).Sublist (h.flatMap callsAt) := by
  refine List.Sublist.flatMap_right h fun x _ => ?_
  unfold ingestsAt
  split
  · split
    · exact List.filter_sublist
    · exact List.nil_sublist _
  · exact List.nil_sublist _

theorem written_sublist {calls calls' : List (Call ι τ)} (h : calls.Sublist calls') :
    (written calls).Sublist (written calls') :=
  (h.filterMap Call.written?).flatten

theorem mem_written {calls : List (Call ι τ)} {tick : Tick} :
    tick ∈ written calls ↔ ∃ batch, Call.storeTicks batch true ∈ calls ∧ tick ∈ batch := by
  rw [written, List.mem_flatten]
  refine exists_congr fun batch => and_congr_left fun _ => ?_
  rw [List.mem_filterMap]
  constructor
  · rintro ⟨c, hc, hbatch⟩
    cases c with
    | storeTicks b ok =>
      cases ok with
      | true =>
        cases hbatch
        exact hc
      | false => cases hbatch
    | _ => cases hbatch
  · exact fun hc => ⟨_, hc, rfl⟩

/-- Where no write fails and no batch of a loop is under way, the ticks of all that it took were
written, in their order. -/
theorem written_of_rest (hist : History (happens V S) ⟨start, .new config (a, [])⟩ h t)
    (hok : ∀ batch, Call.storeTicks batch false ∉ t.world.around.2) {id : Nat}
    (hrests : Rests ((t.world.job? id).map Job.work)) :
    taken id h = [] ∨ ∃ instrument,
      ((taken id h).filterMap (V.tick? instrument)).Sublist (written t.world.around.2) := by
  have hbatched := batched_of_history hist id
  have hsub : (ingests id h).Sublist t.world.around.2 :=
    (log_of_history hist).1 ▸ ingests_sublist id h
  have hwritten := written_of_ingested ((ingests_of_history hist id).all hrests)
    fun batch hb => hok batch (hsub.subset hb)
  rcases hbatched.ticks with ⟨hnil, -⟩ | ⟨instrument, -, -, hticks⟩
  · exact .inl (hbatched.flatten ▸ hnil ▸ rfl)
  · exact .inr ⟨instrument, hticks ▸ hwritten ▸ written_sublist hsub⟩

/-- What a loop took was received. -/
theorem received_of_taken (hist : History (happens V S) ⟨start, .new config (a, [])⟩ h t) {id : Nat}
    {trade : τ} (htrade : trade ∈ taken id h) :
    ∃ stream, Call.receive stream trade ∈ t.world.around.2 := by
  obtain ⟨x, hx, htrade⟩ := List.mem_flatMap.1 htrade
  rcases takes_of_history id hist x hx with hnil | ⟨-, j, instrument, stream, htakes⟩
  · rw [hnil] at htrade
    cases htrade
  · refine ⟨stream, ?_⟩
    have hcalls : callsAt x = (takenAt id x).map (.receive stream) := htakes.calls
    rw [(log_of_history hist).1]
    refine List.mem_flatMap.2 ⟨x, hx, ?_⟩
    rw [hcalls]
    exact List.mem_map_of_mem htrade

/-- What was written is the tick of a trade that some loop took. -/
theorem taken_of_written (hist : History (happens V S) ⟨start, .new config (a, [])⟩ h t)
    {tick : Tick} (htick : tick ∈ written t.world.around.2) :
    ∃ id instrument, ∃ trade ∈ taken id h, V.tick? instrument trade = some tick := by
  obtain ⟨batch, hcall, htick⟩ := mem_written.1 htick
  obtain ⟨-, id, hbatch⟩ := (calls_of_history hist).2.2 _ hcall batch rfl
  rcases (batched_of_history hist id).ticks with ⟨-, hnil⟩ | ⟨instrument, -, -, hticks⟩
  · rw [hnil] at hbatch
    cases hbatch
  · have hmem := List.mem_flatten.2 ⟨batch, hbatch, htick⟩
    rw [hticks] at hmem
    obtain ⟨trade, htrade, htold⟩ := List.mem_filterMap.1 hmem
    exact ⟨id, instrument, trade, htrade, htold⟩

end World
end

end Collector

/-! ## Trades with one key -/

namespace Binance

/-- Trades of one symbol and one millisecond, which need not be one trade. -/
def Trade.Twin (a b : Trade) : Prop := a.symbol = b.symbol ∧ a.tradeTime = b.tradeTime

instance (a b : Trade) : Decidable (a.Twin b) := inferInstanceAs (Decidable (_ ∧ _))

/-- A tick says what is known of a trade. -/
structure Says (tick : Tick) (trade : Trade) : Prop where
  exchange : tick.exchange = "binance"
  source : tick.source = "binance_ws"
  symbol : tick.symbol = trade.symbol
  time : Instant.ofMillis? trade.tradeTime = some tick.timestamp
  number : tick.extra = .ofList [("trade_id", .ofNat trade.id.toNat)]
  price : tick.price = trade.price
  size : tick.size = trade.quantity
  side : tick.side = some trade.side

theorem Says.twin {tick tick' : Tick} {trade trade' : Trade} (h : Says tick trade)
    (h' : Says tick' trade') (hkey : tick'.key = tick.key) : trade'.Twin trade := by
  have hsymbol : tick'.symbol = tick.symbol := congrArg RowKey.symbol hkey
  have htime : tick'.timestamp = tick.timestamp := congrArg RowKey.time hkey
  refine ⟨h'.symbol.symm.trans (hsymbol.trans h.symbol), ?_⟩
  rw [← Instant.millis_of_ofMillis h'.time, htime, Instant.millis_of_ofMillis h.time]

end Binance

namespace Collector

theorem tells_of_tick {instrument : String} {trade : Binance.Trade} {tick : Tick}
    (h : binance.tick? instrument trade = some tick) : Binance.Says tick trade := by
  unfold Venue.tick? binance Binance.Trade.toTick Instant.ofMillis at h
  cases htime : Instant.ofMillis? trade.tradeTime with
  | none => simp [htime, Except.map, Except.toOption] at h
  | some time =>
    obtain rfl : _ = tick := by simpa [htime, Except.map, Except.toOption] using h
    exact ⟨rfl, rfl, rfl, htime, rfl, rfl, rfl, rfl⟩

theorem tick_of_time {trade : Binance.Trade} {time : Instant}
    (h : Instant.ofMillis? trade.tradeTime = some time) (instrument : String) :
    ∃ tick, binance.tick? instrument trade = some tick := by
  simp [Venue.tick?, binance, Binance.Trade.toTick, Instant.ofMillis, h, Except.map,
    Except.toOption]

/-- What a store in memory keeps of Binance's trades, whatever happens to a collector:

* under each key the tick that was written last, and one tick only;
* where no write fails, of all trades that a loop took and of which no batch is under way, the tick
  of the last trade with this symbol and this time;
* of a trade that shares them with no other one, its own tick. -/
theorem ticks_kept {σ : Type} (S : Surroundings σ String Binance.Kline Binance.Trade)
    (memory : σ → Store.Memory) (hm : Remembers S memory) (config : Config String) (a : σ)
    (start : Nat) (hinit : Store.InOrder Tick.key (memory a).ticks)
    (h : List (Incident (Timed (World.Watched σ String Binance.Trade)) (World.Event σ String)))
    (t : Timed (World.Watched σ String Binance.Trade))
    (hist : History (World.happens binance S) ⟨start, .new config (a, [])⟩ h t)
    (hquiet : World.Quiet memory h) :
    Store.InOrder Tick.key (memory t.world.around.1).ticks ∧
    (∀ key, Store.stored? Tick.key (memory t.world.around.1).ticks key =
      (Store.stored? Tick.key (written t.world.around.2).reverse key).or
        (Store.stored? Tick.key (memory a).ticks key)) ∧
    ((∀ batch, Call.storeTicks batch false ∉ t.world.around.2) →
      ∀ id, World.Rests ((t.world.job? id).map Job.work) →
        ∀ trade ∈ World.taken id h, ∀ time, Instant.ofMillis? trade.tradeTime = some time →
          ∃ tick ∈ (memory t.world.around.1).ticks,
            (∀ other ∈ (memory t.world.around.1).ticks, other.key = tick.key → other = tick) ∧
            Store.stored? Tick.key (written t.world.around.2).reverse tick.key = some tick ∧
            tick.key = ⟨"binance", trade.symbol, "binance_ws", time⟩ ∧
            (∃ id', ∃ last ∈ World.taken id' h, last.Twin trade ∧ Binance.Says tick last) ∧
            ((∀ id', ∀ other ∈ World.taken id' h, other.Twin trade → other = trade) →
              Binance.Says tick trade)) := by
  have hkept := World.remembered_of_history hm hist hquiet
  have horder : Store.InOrder Tick.key (memory t.world.around.1).ticks := by
    rw [hkept]
    exact hinit.upsertAll _
  have hstored (key : RowKey) := hinit.stored_upsertAll (written t.world.around.2) key
  rw [← hkept] at hstored
  refine ⟨horder, hstored, fun hok id hrests trade htrade time htime => ?_⟩
  -- the trade's own tick was written, perhaps not as the last one with its key
  obtain ⟨own, hown, hwritten⟩ : ∃ own, Binance.Says own trade ∧
      own ∈ written t.world.around.2 := by
    rcases World.written_of_rest hist hok hrests with hnil | ⟨instrument, hsub⟩
    · rw [hnil] at htrade
      cases htrade
    · obtain ⟨own, hown⟩ := tick_of_time htime instrument
      exact ⟨own, tells_of_tick hown, hsub.subset (List.mem_filterMap.2 ⟨trade, htrade, hown⟩)⟩
  obtain ⟨tick, hlast⟩ : ∃ tick,
      Store.stored? Tick.key (written t.world.around.2).reverse own.key = some tick := by
    rw [← Option.isSome_iff_exists, Store.stored?, List.find?_isSome]
    exact ⟨own, List.mem_reverse.2 hwritten, decide_eq_true rfl⟩
  have hkey : tick.key = own.key := by simpa using List.find?_some hlast
  have hmem : tick ∈ (memory t.world.around.1).ticks := by
    have hstands := hstored own.key
    rw [hlast, Option.some_or] at hstands
    exact (horder.stored_iff.1 hstands).1
  obtain ⟨id', instrument, last, htaken, htold⟩ :=
    World.taken_of_written hist (List.mem_reverse.1 (List.mem_of_find?_eq_some hlast))
  have htells := tells_of_tick htold
  have htwin := hown.twin htells hkey
  refine ⟨tick, hmem, ?_, hkey ▸ hlast, ?_, ⟨id', last, htaken, htwin, htells⟩, ?_⟩
  · intro other hother hsame
    have hone := horder.stored_iff.2 ⟨hother, hsame⟩
    rw [horder.stored_iff.2 ⟨hmem, rfl⟩] at hone
    exact (Option.some.inj hone).symm
  · rw [hkey, Tick.key, hown.exchange, hown.symbol, hown.source,
      Option.some.inj (hown.time.symm.trans htime)]
  · intro hunique
    exact hunique id' last htaken htwin ▸ htells

/-! ## Scripts -/

theorem script_remembers {ι ρ τ : Type} (display : ι → String) (hasDownstream : Bool) :
    Remembers (Script.surroundings display hasDownstream : Surroundings (Script ρ τ) ι ρ τ)
      Script.memory where
  stores := by
    intro now batch s n s' h
    simp only [Script.surroundings, Script.persistTicks, Script.log] at h
    split at h <;> cases h
    rfl
  refuses := by
    intro now batch s e s' h
    simp only [Script.surroundings, Script.persistTicks, Script.log] at h
    split at h <;> cases h
    rfl
  fetch := by
    rintro now instrument request s _ _ ⟨⟩
    rfl
  fetched := by
    intro now fetch s r s' h
    simp only [Script.surroundings, Script.fetched?] at h
    split at h
    · cases h
    · split at h <;> cases h
      rfl
  opens := by
    intro now instrument s r s' h
    simp only [Script.surroundings, Script.openStream, Script.log] at h
    split at h <;> cases h <;> rfl
  receives := by
    intro stream s r s' h
    simp only [Script.surroundings, Script.receive, Script.onStream] at h
    split at h <;> cases h <;> rfl
  drops := fun _ _ => rfl
  persistBars := by
    intro now bars s r s' h
    simp only [Script.surroundings, Script.persistBars, Script.log] at h
    split at h <;> cases h <;> rfl
  publish := by
    intro d hd now batch s publication s' h
    cases hasDownstream with
    | false => cases hd
    | true =>
      cases hd
      cases h
      rfl
  published := by
    intro d hd publication s r s' h
    cases hasDownstream with
    | false => cases hd
    | true =>
      cases hd
      obtain ⟨p, hp, heq⟩ := Option.map_eq_some_iff.1 h
      cases heq
      rfl

/-! ## Two trades, in one millisecond or in two -/

namespace Sample

/-- One stream with these trades, and a store that does not fail. -/
def delivering (trades : List Binance.Trade) : Script Binance.Kline Binance.Trade :=
  .new .none ⟨[("BTCUSDT", [.trades trades false])]⟩ .none .none none

def newDelivering (trades : List Binance.Trade) :
    Timed (World.Watched (Script Binance.Kline Binance.Trade) String Binance.Trade) :=
  ⟨0, .new pairs (delivering trades, [])⟩

/-- The loop opens its stream, takes what waits there, and writes it. -/
def untilWritten : List (World.Event (Script Binance.Kline Binance.Trade) String) :=
  .start :: List.replicate 4 (.move (.goOn 1))

def first : Binance.Trade := trade 7 price

/-- Another trade in the millisecond of the first. -/
def second : Binance.Trade := trade 8 nextPrice

def later : Binance.Trade := { second with tradeTime := 2 }

/-- The number of a trade, as its tick has it. -/
def number (tick : Tick) : Option Int :=
  match Json.Members.get? tick.extra "trade_id" with
  | some (.number (.int n)) => some n
  | _ => none

/-- What a loop took, all that was received, whether a batch is under way, whether a write failed,
and what the store keeps. -/
structure Left where
  taken : List Binance.Trade
  received : List Binance.Trade
  busy : Option Bool
  refused : Bool
  numbers : List (Option Int)
  deriving DecidableEq

def refused : Call String Binance.Trade → Bool
  | .storeTicks _ false => true
  | _ => false

def left (h : List (Incident (Timed (World.Watched (Script Binance.Kline Binance.Trade) String
      Binance.Trade)) (World.Event (Script Binance.Kline Binance.Trade) String)))
    (t : Timed (World.Watched (Script Binance.Kline Binance.Trade) String Binance.Trade)) : Left :=
  ⟨World.taken 1 h, t.world.around.2.filterMap Call.trade?,
    (t.world.job? 1).map (·.work.isIngesting), t.world.around.2.any refused,
    t.world.around.1.memory.ticks.map number⟩

theorem replay_delivering :
    (History.replay (World.happens binance apart) untilWritten
      (newDelivering [first, later])).map (fun r => left r.1 r.2) =
        some ⟨[first, later], [first, later], some false, false, [some 7, some 8]⟩ ∧
    (History.replay (World.happens binance apart) untilWritten
      (newDelivering [first, second])).map (fun r => left r.1 r.2) =
        some ⟨[first, second], [first, second], some false, false, [some 8]⟩ := by
  decide +kernel

theorem settled {h : List (Incident (Timed (World.Watched (Script Binance.Kline Binance.Trade)
      String Binance.Trade)) (World.Event (Script Binance.Kline Binance.Trade) String))}
    {t : Timed (World.Watched (Script Binance.Kline Binance.Trade) String Binance.Trade)}
    {taken received : List Binance.Trade} {numbers : List (Option Int)}
    (hl : left h t = ⟨taken, received, some false, false, numbers⟩) :
    World.taken 1 h = taken ∧
      (∀ stream trade, Call.receive stream trade ∈ t.world.around.2 → trade ∈ received) ∧
      World.Rests ((t.world.job? 1).map Job.work) ∧
      (∀ batch, Call.storeTicks batch false ∉ t.world.around.2) ∧
      ∀ tick ∈ t.world.around.1.memory.ticks, number tick ∈ numbers := by
  simp only [left, Left.mk.injEq] at hl
  obtain ⟨htaken, rfl, hbusy, hrefused, rfl⟩ := hl
  refine ⟨htaken, ?_, ?_, ?_, fun tick htick => List.mem_map_of_mem htick⟩
  · exact fun stream trade hcall => List.mem_filterMap.2 ⟨_, hcall, rfl⟩
  · obtain ⟨j, hj, hrests⟩ := Option.map_eq_some_iff.1 hbusy
    rw [hj]
    exact World.rests_some hrests
  · intro batch hcall
    have hany : t.world.around.2.any refused = true := List.any_eq_true.2 ⟨_, hcall, rfl⟩
    rw [hrefused] at hany
    cases hany

theorem untilWritten_quiet {trades : List Binance.Trade}
    {h : List (Incident (Timed (World.Watched (Script Binance.Kline Binance.Trade)
      String Binance.Trade)) (World.Event (Script Binance.Kline Binance.Trade) String))}
    {t : Timed (World.Watched (Script Binance.Kline Binance.Trade) String Binance.Trade)}
    (hr : History.replay (World.happens binance apart) untilWritten (newDelivering trades) =
      some (h, t)) : World.Quiet Script.memory h := by
  intro x hx s hs
  have hevent : x.event ∈ untilWritten :=
    History.replay_events hr ▸ List.mem_map_of_mem hx
  rw [hs] at hevent
  simp [untilWritten] at hevent

end Sample

/-- Of two trades in different milliseconds both are kept. -/
theorem ticks_kept_apart : ∃ h t, History (World.happens binance Sample.apart)
      (Sample.newDelivering [Sample.first, Sample.later]) h t ∧
      World.taken 1 h = [Sample.first, Sample.later] ∧
      (∃ tick ∈ t.world.around.1.memory.ticks, Binance.Says tick Sample.first) ∧
      ∃ tick ∈ t.world.around.1.memory.ticks, Binance.Says tick Sample.later := by
  obtain ⟨⟨h, t⟩, hr, hleft⟩ := Option.map_eq_some_iff.1 Sample.replay_delivering.1
  obtain ⟨htaken, hreceived, hrests, hok, -⟩ := Sample.settled hleft
  have hist := History.of_replay hr
  have hkept := (ticks_kept Sample.apart Script.memory (script_remembers id false) Sample.pairs
    (Sample.delivering [Sample.first, Sample.later]) 0 List.Pairwise.nil h t hist
    (Sample.untilWritten_quiet hr)).2.2 hok 1 hrests
  have hdistinct : ∀ trade ∈ [Sample.first, Sample.later], ∀ other ∈ [Sample.first, Sample.later],
      other.Twin trade → other = trade := by decide
  have hown (trade : Binance.Trade) (htrade : trade ∈ [Sample.first, Sample.later]) :
      ∃ tick ∈ t.world.around.1.memory.ticks, Binance.Says tick trade := by
    have htime : ∃ time, Instant.ofMillis? trade.tradeTime = some time := by
      rw [← Option.isSome_iff_exists]
      revert trade
      decide
    obtain ⟨time, htime⟩ := htime
    obtain ⟨tick, htick, -, -, -, -, htells⟩ := hkept trade (htaken ▸ htrade) time htime
    refine ⟨tick, htick, htells fun id' other hother htwin => ?_⟩
    obtain ⟨stream, hcall⟩ := World.received_of_taken hist hother
    exact hdistinct trade htrade other (hreceived stream other hcall) htwin
  exact ⟨h, t, hist, htaken, hown _ (by simp), hown _ (by simp)⟩

/-- Two trades with different numbers, whose times are valid, come in one batch to a store that does
not fail. In the end it keeps no tick with the number of the first. -/
theorem trades_merged : Sample.first.id ≠ Sample.second.id ∧
    (∃ time, Instant.ofMillis? Sample.first.tradeTime = some time) ∧
    (∃ time, Instant.ofMillis? Sample.second.tradeTime = some time) ∧
    ∃ h t, History (World.happens binance Sample.apart)
      (Sample.newDelivering [Sample.first, Sample.second]) h t ∧
      World.taken 1 h = [Sample.first, Sample.second] ∧
      World.Rests ((t.world.job? 1).map Job.work) ∧
      (∀ batch, Call.storeTicks batch false ∉ t.world.around.2) ∧
      ∀ tick ∈ t.world.around.1.memory.ticks,
        Json.Members.get? tick.extra "trade_id" ≠ some (.ofNat Sample.first.id.toNat) := by
  refine ⟨by decide, ⟨_, rfl⟩, ⟨_, rfl⟩, ?_⟩
  obtain ⟨⟨h, t⟩, hr, hleft⟩ := Option.map_eq_some_iff.1 Sample.replay_delivering.2
  obtain ⟨htaken, -, hrests, hok, hnumbers⟩ := Sample.settled hleft
  refine ⟨h, t, .of_replay hr, htaken, hrests, hok, fun tick htick hnumber => ?_⟩
  have hkept := hnumbers tick htick
  rw [Sample.number, hnumber] at hkept
  revert hkept
  decide

end Collector
end MarketFeed
