import MarketFeed.Collector.Loop

/-!
# MarketFeed.Proofs.Collector.Stages

The work of a collector stage by stage, each as an equation: what is asked of the surroundings, and
what comes of the answer.

* `Surroundings.gather_succ` — the trades that wait on a stream.
* `takeBatch_eq`, `goStream_starting`, … — a loop that streams trades.
* `goPass_fetching`, `goPass_storing` — a pass over history.
* `goPoll_starting`, `goPoll_passing` — a loop that polls history.
* `halt_of_stopped` — the end of a loop that was stopped.
-/

namespace MarketFeed
namespace Collector

theorem Surroundings.gather_succ {σ ι ρ τ : Type} {S : Surroundings σ ι ρ τ} {s : σ}
    {stream n : Nat} :
    S.gather stream (n + 1) s =
      let p := S.receive stream s
      match p.1 with
      | .item t => (t :: (S.gather stream n p.2).1, (S.gather stream n p.2).2)
      | .empty => ([], p.2)
      | .ended => ([], p.2) := by
  dsimp only [gather]
  rcases S.receive stream s with ⟨r, s'⟩
  cases r <;> rfl

namespace World

variable {σ ι ρ τ : Type} {V : Venue ι ρ τ} {S : Surroundings σ ι ρ τ} {w : World σ ι}
  {now id : Nat} {instrument : ι}

theorem takeBatch_eq {stream : Nat} {first : τ} :
    w.takeBatch V S id instrument stream first =
      let g := S.gather stream (w.batchSize - 1) w.around
      let ticks := V.ticks instrument (first :: g.1)
      { w with around := g.2 }.setWork id
        (.stream instrument
          (if ticks.isEmpty then .receiving stream else .storing stream ticks false)) := rfl

theorem forward_of_none {stream : Nat} {batch : List Tick} (h : S.downstream = none) :
    w.forward S now id instrument stream batch =
      w.setWork id (.stream instrument (.receiving stream)) := by
  rw [forward, h]

theorem forward_of_some {stream : Nat} {batch : List Tick} {d : Downstream σ}
    (h : S.downstream = some d) :
    w.forward S now id instrument stream batch =
      { w with around := (d.publish now batch w.around).2 }.setWork id
        (.stream instrument (.publishing stream (d.publish now batch w.around).1)) := by
  rw [forward, h]

theorem goStream_starting :
    w.goStream V S now id instrument .starting =
      if w.stopped then some (w.setWork id .ended)
      else
        let p := S.openStream now instrument w.around
        match p.1 with
        | .ok stream =>
          some ({ w with around := p.2 }.setWork id (.stream instrument (.receiving stream)))
        | .error _ => some ({ w with around := p.2 }.pauseStream now id instrument) := by
  dsimp only [goStream]
  rcases S.openStream now instrument w.around with ⟨r, a⟩
  cases r <;> rfl

theorem goStream_receiving {stream : Nat} :
    w.goStream V S now id instrument (.receiving stream) =
      let p := S.receive stream w.around
      match p.1 with
      | .item first => some ({ w with around := p.2 }.takeBatch V S id instrument stream first)
      | .empty => none
      | .ended =>
        some ({ w with around := S.dropStream stream p.2 }.pauseStream now id instrument) := by
  dsimp only [goStream]
  rcases S.receive stream w.around with ⟨r, a⟩
  cases r <;> rfl

theorem goStream_storing {stream : Nat} {batch : List Tick} {again : Bool} :
    w.goStream V S now id instrument (.storing stream batch again) =
      let p := S.storeTicks now batch w.around
      some ({ w with around := p.2 }.setWork id (.stream instrument
        (match p.1, again with
        | .ok _, _ => .forwarding stream batch
        | .error _, false => .storing stream batch true
        | .error _, true => .receiving stream))) := by
  dsimp only [goStream]
  rcases S.storeTicks now batch w.around with ⟨r, a⟩
  cases r <;> cases again <;> rfl

theorem goStream_publishing {stream publication : Nat} :
    w.goStream V S now id instrument (.publishing stream publication) =
      match S.downstream with
      | none => some (w.setWork id (.stream instrument (.receiving stream)))
      | some d =>
        (d.published? publication w.around).map fun p =>
          { w with around := p.2 }.setWork id (.stream instrument (.receiving stream)) := rfl

theorem goPass_fetching {interval : Interval} {fetch : Nat} :
    w.goPass V S now instrument interval (.fetching fetch) =
      (S.fetched? now fetch w.around).map fun p =>
        (match p.1 with
          | .ok rows => .storing (V.bars instrument interval rows)
          | .error e => .finished (.error (.venue e)), { w with around := p.2 }) := by
  dsimp only [goPass]
  cases S.fetched? now fetch w.around with
  | none => rfl
  | some p =>
    rcases p with ⟨r, a⟩
    cases r <;> rfl

theorem goPass_storing {interval : Interval} {bars : List Bar} :
    w.goPass V S now instrument interval (.storing bars) =
      some (.finished ((S.storeBars now bars w.around).1.mapError .store),
        { w with around := (S.storeBars now bars w.around).2 }) := rfl

theorem goPoll_starting {interval : Interval} :
    w.goPoll V S now id instrument interval .starting =
      if w.stopped then some (w.setWork id .ended)
      else
        let p := S.fetch now instrument (.latest interval w.config.lookback) w.around
        some ({ w with around := p.2 }.setWork id
          (.poll instrument interval (.passing (.fetching p.1)))) := rfl

theorem goPoll_passing {interval : Interval} {stage : PassStage}
    (h : ∀ result, stage ≠ .finished result) :
    w.goPoll V S now id instrument interval (.passing stage) =
      (w.goPass V S now instrument interval stage).map fun p =>
        p.2.setWork id (.poll instrument interval (.passing p.1)) := by
  cases stage with
  | fetching fetch => rfl
  | storing bars => rfl
  | finished result => exact absurd rfl (h result)

theorem halt_of_stopped {j : Job ι} (h : w.stopped = true) :
    w.halt S j =
      match j.work with
      | .poll _ _ (.pausing _) => some (w.setWork j.id .ended)
      | .stream _ (.pausing _) => some (w.setWork j.id .ended)
      | .stream _ (.receiving stream) =>
        some ({ w with around := S.dropStream stream w.around }.setWork j.id .ended)
      | _ => none := by
  rw [halt]
  exact if_pos h

end World
end Collector
end MarketFeed
