import MarketFeed.Proofs.Collector.Events

/-!
# MarketFeed.Proofs.Collector.Lockstep

Two collectors to which the same happens, among surroundings that are alike.

* `SameEvent` — the same event, but for what is around the collectors.
* `SameCalls` — two incidents at the same time with the same calls.
* `happens_alike`, `replay_alike` — what can happen to the one can happen to the other, and both
  make the same calls.
-/

namespace MarketFeed
namespace Collector
namespace World

section

variable {σ σ' ι ρ τ : Type}

/-- The same event, but for what is around. -/
inductive SameEvent (R : σ → σ' → Prop) : Event σ ι → Event σ' ι → Prop where
  | move (m : Move) : SameEvent R (.move m) (.move m)
  | around {s : σ} {s' : σ'} (hs : R s s') : SameEvent R (.around s) (.around s')
  | start : SameEvent R .start .start
  | stop : SameEvent R .stop .stop
  | startPass (instrument : ι) (request : HistoryRequest) :
      SameEvent R (.startPass instrument request) (.startPass instrument request)
  | forget (id : Nat) : SameEvent R (.forget id) (.forget id)
  | wait (time : Nat) : SameEvent R (.wait time) (.wait time)

/-- The same time, and the same collector with the same log. -/
def SameState (R : σ → σ' → Prop) (t : Timed (Watched σ ι τ)) (t' : Timed (Watched σ' ι τ)) :
    Prop :=
  t'.now = t.now ∧ Related (SameLog R) t.world t'.world

/-- The same calls at the same time. -/
def SameCalls (x : Incident (Timed (Watched σ ι τ)) (Event σ ι))
    (x' : Incident (Timed (Watched σ' ι τ)) (Event σ' ι)) : Prop :=
  x'.before.now = x.before.now ∧ callsAt x' = callsAt x

variable {R : σ → σ' → Prop} {S : Surroundings σ ι ρ τ} {S' : Surroundings σ' ι ρ τ}
  {V : Venue ι ρ τ} {t : Timed (Watched σ ι τ)} {t' : Timed (Watched σ' ι τ)} {e : Event σ ι}
  {e' : Event σ' ι}

theorem start_among {σ σ' ι : Type} (w : World σ ι) (a' : σ') :
    (w.among a').start.2 = w.start.2.among a' := by
  have hfold {α : Type} (f : α → Work ι) (run : Option Nat) (l : List α) (w : World σ ι) :
      l.foldl (fun w a => w.addJob run (f a)) (w.among a') =
        (l.foldl (fun w a => w.addJob run (f a)) w).among a' := by
    induction l generalizing w with
    | nil => rfl
    | cons a l ih => exact ih (w.addJob run (f a))
  let v : World σ ι := { w with nextId := w.nextId + 1, runs := w.runs ++ [w.nextId] }
  have hpolls := hfold (fun p : ι × Interval => .poll p.1 p.2 .starting) (some w.nextId)
    w.config.backfill v
  have hlive (p' : World σ' ι) (p : World σ ι) (hp : p' = p.among a') :
      p'.config.live.foldl (fun v i => v.addJob (some w.nextId) (.stream i .starting)) p' =
        (p.config.live.foldl (fun v i => v.addJob (some w.nextId) (.stream i .starting)) p).among
          a' := by
    rw [hp]
    exact hfold (fun i : ι => .stream i .starting) _ _ p
  exact hlive _ _ hpolls

/-- What can happen to the one collector can happen to the other. -/
theorem happens_alike (h : Alike R S S') (ht : SameState R t t') (he : SameEvent R e e') :
    Option.Rel (SameState R) (happens V S e t) (happens V S' e' t') := by
  obtain ⟨now, w⟩ := t
  obtain ⟨now', w'⟩ := t'
  obtain ⟨hnow, a', ha, hw⟩ := ht
  have hsame : w' = w.among a' := hw
  have hclock : now' = now := hnow
  subst hsame hclock
  cases he with
  | move m => exact rel_map (h.observed.step ha m) fun _ _ hw => ⟨rfl, hw⟩
  | @around s s' hs => exact .some ⟨rfl, (s', a'.2), ⟨hs, ha.2⟩, congrArg _ rfl⟩
  | start =>
    refine .some ⟨rfl, a', ?_, start_among w a'⟩
    exact (log_start w).symm ▸ ha
  | stop => exact .some ⟨rfl, a', ha, rfl⟩
  | startPass instrument request =>
    obtain ⟨hsame, hnext⟩ := h.observed.fetch now' instrument request w.around a' ha
    refine .some ⟨rfl, _, hnext, ?_⟩
    simp only [Timed.update, startPass, show (w.among a').around = a' from rfl, hsame]
    rfl
  | forget id =>
    rw [happens, happens, show (Timed.mk now' (w.among a')).world.job? id = w.job? id from rfl]
    split
    · exact .some ⟨rfl, a', ha, rfl⟩
    · exact .none
  | wait time =>
    rw [happens, happens]
    split
    · exact .some ⟨rfl, a', ha, rfl⟩
    · exact .none

/-- Whole schedules. -/
theorem replay_alike (h : Alike R S S') {es : List (Event σ ι)} {es' : List (Event σ' ι)}
    (hes : List.Forall₂ (SameEvent R) es es') (ht : SameState R t t') :
    Option.Rel (fun r r' => List.Forall₂ SameCalls r.1 r'.1 ∧ SameState R r.2 r'.2)
      (History.replay (happens V S) es t) (History.replay (happens V S') es' t') := by
  induction hes generalizing t t' with
  | nil => exact .some ⟨.nil, ht⟩
  | @cons e e' es es' he hes ih =>
    unfold History.replay
    have hboth := happens_alike (V := V) h ht he
    cases ho : happens V S e t with
    | none =>
      rw [ho] at hboth
      rw [rel_none_left hboth]
      exact .none
    | some t₁ =>
      rw [ho] at hboth
      obtain ⟨t₁', ho', ht₁⟩ := rel_some_left hboth
      rw [ho']
      refine rel_map (ih ht₁) ?_
      rintro r r' ⟨hcalls, hr⟩
      refine ⟨.cons ⟨ht.1, ?_⟩ hcalls, hr⟩
      obtain ⟨-, a', ha, hw⟩ := ht
      obtain ⟨-, a₁', ha₁, hw₁⟩ := ht₁
      simp only [callsAt, hw, hw₁]
      change a₁'.2.drop a'.2.length = _
      rw [ha₁.2, ha.2]

end

end World
end Collector
end MarketFeed
