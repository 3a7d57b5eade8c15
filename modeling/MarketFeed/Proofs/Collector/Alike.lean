import MarketFeed.Proofs.Collector.Stages

/-!
# MarketFeed.Proofs.Collector.Alike

Collectors among surroundings that cannot be told apart.

* `Alike` — surroundings that give the same in states that are related, but for the answers of the
  downstream.
* `Related`, `Alike.step` — a collector does the same among both, step by step.
-/

namespace MarketFeed
namespace Collector

/-! ## Surroundings -/

section Options

variable {α β : Type} {r : α → β → Prop} {y : Option β}

theorem rel_none_left (h : Option.Rel r none y) : y = none := by
  cases h
  rfl

theorem rel_some_left {a : α} (h : Option.Rel r (some a) y) : ∃ b, y = some b ∧ r a b := by
  cases h with
  | some hab => exact ⟨_, rfl, hab⟩

theorem rel_map {α' β' : Type} {r' : α' → β' → Prop} {f : α → α'} {g : β → β'} {x : Option α}
    (h : Option.Rel r x y) (hfg : ∀ a b, r a b → r' (f a) (g b)) :
    Option.Rel r' (x.map f) (y.map g) := by
  cases h with
  | some hab => exact .some (hfg _ _ hab)
  | none => exact .none

end Options

section

variable {σ σ' ι ρ τ α : Type}

/-- The same result, and states that are related. -/
def Agree (R : σ → σ' → Prop) (p : α × σ) (p' : α × σ') : Prop := p'.1 = p.1 ∧ R p.2 p'.2

/-- A downstream that is told the same in related states gives its answers at the same time,
whatever they are. -/
structure Downstream.Alike (R : σ → σ' → Prop) (d : Downstream σ) (d' : Downstream σ') :
    Prop where
  publish : ∀ now batch s s', R s s' → Agree R (d.publish now batch s) (d'.publish now batch s')
  published? : ∀ n s s', R s s' →
    Option.Rel (fun p p' => R p.2 p'.2) (d.published? n s) (d'.published? n s')

/-- Surroundings that give the same in related states, but for the answers of the downstream. -/
structure Alike (R : σ → σ' → Prop) (S : Surroundings σ ι ρ τ) (S' : Surroundings σ' ι ρ τ) :
    Prop where
  fetch : ∀ now instrument request s s', R s s' →
    Agree R (S.fetch now instrument request s) (S'.fetch now instrument request s')
  fetched? : ∀ now n s s', R s s' →
    Option.Rel (Agree R) (S.fetched? now n s) (S'.fetched? now n s')
  openStream : ∀ now instrument s s', R s s' →
    Agree R (S.openStream now instrument s) (S'.openStream now instrument s')
  receive : ∀ stream s s', R s s' → Agree R (S.receive stream s) (S'.receive stream s')
  dropStream : ∀ stream s s', R s s' → R (S.dropStream stream s) (S'.dropStream stream s')
  persistBars : ∀ now bars s s', R s s' →
    Agree R (S.persistBars now bars s) (S'.persistBars now bars s')
  persistTicks : ∀ now batch s s', R s s' →
    Agree R (S.persistTicks now batch s) (S'.persistTicks now batch s')
  downstream : Option.Rel (Downstream.Alike R) S.downstream S'.downstream

namespace Alike

variable {R : σ → σ' → Prop} {S : Surroundings σ ι ρ τ} {S' : Surroundings σ' ι ρ τ} {s : σ}
  {s' : σ'}

theorem gather (h : Alike R S S') (hs : R s s') (stream n : Nat) :
    Agree R (S.gather stream n s) (S'.gather stream n s') := by
  induction n generalizing s s' with
  | zero => exact ⟨rfl, hs⟩
  | succ n ih =>
    obtain ⟨hsame, hnext⟩ := h.receive stream s s' hs
    rw [Surroundings.gather_succ, Surroundings.gather_succ]
    simp only [hsame]
    cases (S.receive stream s).1 with
    | item t => exact ⟨congrArg (t :: ·) (ih hnext).1, (ih hnext).2⟩
    | empty => exact ⟨rfl, hnext⟩
    | ended => exact ⟨rfl, hnext⟩

theorem storeBars (h : Alike R S S') (hs : R s s') (now : Nat) (bars : List Bar) :
    Agree R (S.storeBars now bars s) (S'.storeBars now bars s') := by
  unfold Surroundings.storeBars
  split
  · exact ⟨rfl, hs⟩
  · exact h.persistBars now bars s s' hs

theorem storeTicks (h : Alike R S S') (hs : R s s') (now : Nat) (batch : List Tick) :
    Agree R (S.storeTicks now batch s) (S'.storeTicks now batch s') := by
  unfold Surroundings.storeTicks
  split
  · exact ⟨rfl, hs⟩
  · exact h.persistTicks now batch s s' hs

end Alike
end

/-! ## Collectors -/

namespace World

variable {σ σ' ι ρ τ : Type}

/-- The collector among other surroundings. -/
def among (w : World σ ι) (around : σ') : World σ' ι :=
  ⟨w.config, w.stopped, w.jobs, w.nextId, w.runs, w.finished, around⟩

/-- The same collector among surroundings in related states. -/
def Related (R : σ → σ' → Prop) (w : World σ ι) (w' : World σ' ι) : Prop :=
  ∃ around, R w.around around ∧ w' = w.among around

end World

namespace Alike

open World

variable {σ σ' ι ρ τ : Type} {R : σ → σ' → Prop} {S : Surroundings σ ι ρ τ}
  {S' : Surroundings σ' ι ρ τ} {V : Venue ι ρ τ} {w : World σ ι} {a' : σ'} {now id : Nat}
  {instrument : ι}

theorem takeBatch (h : Alike R S S') (ha : R w.around a') (stream : Nat) (first : τ) :
    Related R (w.takeBatch V S id instrument stream first)
      ((w.among a').takeBatch V S' id instrument stream first) := by
  obtain ⟨hsame, hnext⟩ := h.gather ha stream (w.batchSize - 1)
  refine ⟨_, hnext, ?_⟩
  rw [takeBatch_eq, takeBatch_eq]
  simp only [← hsame]
  rfl

theorem forward (h : Alike R S S') (ha : R w.around a') (stream : Nat) (batch : List Tick) :
    Related R (w.forward S now id instrument stream batch)
      ((w.among a').forward S' now id instrument stream batch) := by
  have hdown := h.downstream
  cases hd : S.downstream with
  | none =>
    rw [hd] at hdown
    rw [forward_of_none hd, forward_of_none (rel_none_left hdown)]
    exact ⟨a', ha, rfl⟩
  | some d =>
    rw [hd] at hdown
    obtain ⟨d', hd', hboth⟩ := rel_some_left hdown
    obtain ⟨hsame, hnext⟩ := hboth.publish now batch w.around a' ha
    rw [forward_of_some hd, forward_of_some hd', ← hsame]
    exact ⟨_, hnext, rfl⟩

theorem goStream (h : Alike R S S') (ha : R w.around a') (stage : StreamStage) :
    Option.Rel (Related R) (w.goStream V S now id instrument stage)
      ((w.among a').goStream V S' now id instrument stage) := by
  cases stage with
  | starting =>
    obtain ⟨hsame, hnext⟩ := h.openStream now instrument w.around a' ha
    rw [goStream_starting, goStream_starting]
    by_cases hstopped : w.stopped = true
    · rw [if_pos hstopped, if_pos (show (w.among a').stopped = true from hstopped)]
      exact .some ⟨a', ha, rfl⟩
    · rw [if_neg hstopped, if_neg (show ¬ (w.among a').stopped = true from hstopped)]
      simp only [show (w.among a').around = a' from rfl, hsame]
      cases (S.openStream now instrument w.around).1 with
      | ok stream => exact .some ⟨_, hnext, rfl⟩
      | error e => exact .some ⟨_, hnext, rfl⟩
  | receiving stream =>
    obtain ⟨hsame, hnext⟩ := h.receive stream w.around a' ha
    rw [goStream_receiving, goStream_receiving]
    simp only [show (w.among a').around = a' from rfl, hsame]
    cases (S.receive stream w.around).1 with
    | item first =>
      let w' : World σ ι := { w with around := (S.receive stream w.around).2 }
      exact .some (h.takeBatch (w := w') hnext stream first)
    | empty => exact .none
    | ended => exact .some ⟨_, h.dropStream stream _ _ hnext, rfl⟩
  | storing stream batch again =>
    obtain ⟨hsame, hnext⟩ := h.storeTicks ha now batch
    rw [goStream_storing, goStream_storing]
    simp only [show (w.among a').around = a' from rfl, hsame]
    exact .some ⟨_, hnext, rfl⟩
  | forwarding stream batch => exact .some (h.forward ha stream batch)
  | publishing stream publication =>
    have hdown := h.downstream
    rw [goStream_publishing, goStream_publishing]
    cases hd : S.downstream with
    | none =>
      rw [hd] at hdown
      rw [rel_none_left hdown]
      exact .some ⟨a', ha, rfl⟩
    | some d =>
      rw [hd] at hdown
      obtain ⟨d', hd', hboth⟩ := rel_some_left hdown
      rw [hd']
      exact rel_map (hboth.published? publication w.around a' ha) fun _ _ hnext =>
        ⟨_, hnext, rfl⟩
  | pausing due =>
    by_cases hdue : due ≤ now
    · rw [World.goStream, World.goStream, if_pos hdue, if_pos hdue]
      exact .some ⟨a', ha, rfl⟩
    · rw [World.goStream, World.goStream, if_neg hdue, if_neg hdue]
      exact .none

theorem goPass (h : Alike R S S') (ha : R w.around a') (interval : Interval) (stage : PassStage) :
    Option.Rel (fun p p' => p'.1 = p.1 ∧ Related R p.2 p'.2)
      (w.goPass V S now instrument interval stage)
      ((w.among a').goPass V S' now instrument interval stage) := by
  cases stage with
  | fetching fetch =>
    rw [goPass_fetching, goPass_fetching]
    refine rel_map (h.fetched? now fetch w.around a' ha) ?_
    rintro p p' ⟨hsame, hnext⟩
    rw [hsame]
    exact ⟨rfl, _, hnext, rfl⟩
  | storing bars =>
    obtain ⟨hsame, hnext⟩ := h.storeBars ha now bars
    rw [goPass_storing, goPass_storing]
    simp only [show (w.among a').around = a' from rfl, hsame]
    exact .some ⟨rfl, _, hnext, rfl⟩
  | finished result => exact .none

theorem goPoll (h : Alike R S S') (ha : R w.around a') (interval : Interval) (stage : PollStage) :
    Option.Rel (Related R) (w.goPoll V S now id instrument interval stage)
      ((w.among a').goPoll V S' now id instrument interval stage) := by
  cases stage with
  | starting =>
    obtain ⟨hsame, hnext⟩ :=
      h.fetch now instrument (.latest interval w.config.lookback) w.around a' ha
    rw [goPoll_starting, goPoll_starting]
    by_cases hstopped : w.stopped = true
    · rw [if_pos hstopped, if_pos (show (w.among a').stopped = true from hstopped)]
      exact .some ⟨a', ha, rfl⟩
    · rw [if_neg hstopped, if_neg (show ¬ (w.among a').stopped = true from hstopped)]
      simp only [show (w.among a').around = a' from rfl,
        show (w.among a').config = w.config from rfl, hsame]
      exact .some ⟨_, hnext, rfl⟩
  | passing stage =>
    by_cases hover : ∃ result, stage = .finished result
    · obtain ⟨result, rfl⟩ := hover
      exact .some ⟨a', ha, rfl⟩
    · have hgoes : ∀ result, stage ≠ .finished result := fun result heq => hover ⟨result, heq⟩
      rw [goPoll_passing hgoes, goPoll_passing hgoes]
      refine rel_map (h.goPass ha interval stage) ?_
      rintro p p' ⟨hsame, around, hnext, hp⟩
      rw [hsame, hp]
      exact ⟨around, hnext, rfl⟩
  | pausing due =>
    by_cases hdue : due ≤ now
    · rw [World.goPoll, World.goPoll, if_pos hdue, if_pos hdue]
      exact .some ⟨a', ha, rfl⟩
    · rw [World.goPoll, World.goPoll, if_neg hdue, if_neg hdue]
      exact .none

theorem goOn (h : Alike R S S') (ha : R w.around a') (j : Job ι) :
    Option.Rel (Related R) (w.goOn V S now j) ((w.among a').goOn V S' now j) := by
  unfold World.goOn
  cases j.work with
  | pass instrument request stage =>
    refine rel_map (h.goPass ha request.interval stage) ?_
    rintro p p' ⟨hsame, around, hnext, hp⟩
    rw [hsame, hp]
    exact ⟨around, hnext, rfl⟩
  | poll instrument interval stage => exact h.goPoll ha interval stage
  | stream instrument stage => exact h.goStream ha stage
  | ended => exact .none

theorem halt (h : Alike R S S') (ha : R w.around a') (j : Job ι) :
    Option.Rel (Related R) (w.halt S j) ((w.among a').halt S' j) := by
  by_cases hstopped : w.stopped = true
  · rw [halt_of_stopped hstopped, halt_of_stopped (show (w.among a').stopped = true from hstopped)]
    split
    · exact .some ⟨a', ha, rfl⟩
    · exact .some ⟨a', ha, rfl⟩
    · exact .some ⟨_, h.dropStream _ _ _ ha, rfl⟩
    · exact .none
  · rw [World.halt, World.halt, if_neg hstopped,
      if_neg (show ¬ (w.among a').stopped = true from hstopped)]
    exact .none

theorem finishRun (ha : R w.around a') (run : Nat) :
    Option.Rel (Related R) (w.finishRun now run) ((w.among a').finishRun now run) := by
  unfold World.finishRun
  simp only [show (w.among a').runs = w.runs from rfl, show (w.among a').jobs = w.jobs from rfl]
  split
  · exact .some ⟨a', ha, rfl⟩
  · exact .none

/-- A collector does the same among surroundings that are alike, and they stay so. -/
theorem step (h : Alike R S S') (ha : R w.around a') (m : Move) :
    Option.Rel (Related R) (World.step V S now m w) (World.step V S' now m (w.among a')) := by
  cases m with
  | halt id =>
    rw [World.step, World.step, show (w.among a').job? id = w.job? id from rfl]
    cases w.job? id with
    | none => exact .none
    | some j => exact h.halt ha j
  | goOn id =>
    rw [World.step, World.step, show (w.among a').job? id = w.job? id from rfl]
    cases w.job? id with
    | none => exact .none
    | some j => exact h.goOn ha j
  | finish run => exact finishRun ha run

end Alike
end Collector
end MarketFeed
