import MarketFeed.Proofs.Collector.Alike

/-!
# MarketFeed.Proofs.Collector.Calls

The calls that a collector makes of its surroundings.

* `Call`, `Surroundings.observed` — surroundings with a log of all that is done to them.
* `observed_alike`, `step_observed` — the log makes no difference to anyone.
* `Alike.observed` — among surroundings that are alike, the logs stay the same.
* `gather_observed`, `storeTicks_observed`, `storeBars_observed` — the calls of what is done in more
  than one call, or in none.
-/

namespace MarketFeed
namespace Collector

/-- What a collector does to its surroundings: with the stream that was opened if one was, the
trade that was received, and whether the store could write. -/
inductive Call (ι τ : Type) where
  | fetch (instrument : ι) (request : HistoryRequest)
  | openStream (instrument : ι) (stream : Option Nat)
  | receive (stream : Nat) (trade : τ)
  | dropStream (stream : Nat)
  | storeBars (bars : List Bar) (ok : Bool)
  | storeTicks (batch : List Tick) (ok : Bool)
  | publish (batch : List Tick)

namespace Call

variable {ι τ : Type}

/-- A look at a stream that gives no trade is not a call. -/
def ofReceived (stream : Nat) : Received τ → List (Call ι τ)
  | .item trade => [.receive stream trade]
  | .empty => []
  | .ended => []

/-- The trade that was received. -/
def trade? : Call ι τ → Option τ
  | .receive _ trade => some trade
  | _ => none

/-- Whether it passes ticks on, to the store or to the downstream. -/
def passesTicks : Call ι τ → Bool
  | .storeTicks _ _ => true
  | .publish _ => true
  | _ => false

end Call

namespace Surroundings

variable {σ ι ρ τ : Type}

/-- Surroundings that keep a log of the calls. -/
def observed (S : Surroundings σ ι ρ τ) : Surroundings (σ × List (Call ι τ)) ι ρ τ where
  fetch now instrument request s :=
    let p := S.fetch now instrument request s.1
    (p.1, p.2, s.2 ++ [.fetch instrument request])
  fetched? now n s := (S.fetched? now n s.1).map fun p => (p.1, p.2, s.2)
  openStream now instrument s :=
    let p := S.openStream now instrument s.1
    (p.1, p.2, s.2 ++ [.openStream instrument p.1.toOption])
  receive stream s :=
    let p := S.receive stream s.1
    (p.1, p.2, s.2 ++ Call.ofReceived stream p.1)
  dropStream stream s := (S.dropStream stream s.1, s.2 ++ [.dropStream stream])
  persistBars now bars s :=
    let p := S.persistBars now bars s.1
    (p.1, p.2, s.2 ++ [.storeBars bars p.1.isOk])
  persistTicks now batch s :=
    let p := S.persistTicks now batch s.1
    (p.1, p.2, s.2 ++ [.storeTicks batch p.1.isOk])
  downstream := S.downstream.map fun d =>
    { publish now batch s :=
        let p := d.publish now batch s.1
        (p.1, p.2, s.2 ++ [.publish batch])
      published? n s := (d.published? n s.1).map fun p => (p.1, p.2, s.2) }

end Surroundings

section

variable {σ σ' ι ρ τ : Type} {R : σ → σ' → Prop} {S : Surroundings σ ι ρ τ}
  {S' : Surroundings σ' ι ρ τ}

/-- The log makes no difference. -/
theorem observed_alike (S : Surroundings σ ι ρ τ) :
    Alike (fun (s : σ × List (Call ι τ)) s' => s.1 = s') S.observed S where
  fetch := by
    rintro now instrument request s _ rfl
    exact ⟨rfl, rfl⟩
  fetched? := by
    rintro now n s _ rfl
    change Option.Rel _ (Option.map _ _) _
    cases S.fetched? now n s.1 with
    | none => exact .none
    | some p => exact .some ⟨rfl, rfl⟩
  openStream := by
    rintro now instrument s _ rfl
    exact ⟨rfl, rfl⟩
  receive := by
    rintro stream s _ rfl
    exact ⟨rfl, rfl⟩
  dropStream := by
    rintro stream s _ rfl
    rfl
  persistBars := by
    rintro now bars s _ rfl
    exact ⟨rfl, rfl⟩
  persistTicks := by
    rintro now batch s _ rfl
    exact ⟨rfl, rfl⟩
  downstream := by
    change Option.Rel _ (Option.map _ _) _
    cases S.downstream with
    | none => exact .none
    | some d =>
      refine .some ⟨?_, ?_⟩
      · rintro now batch s _ rfl
        exact ⟨rfl, rfl⟩
      · rintro n s _ rfl
        change Option.Rel _ (Option.map _ _) _
        cases d.published? n s.1 with
        | none => exact .none
        | some p => exact .some rfl

/-- Without its log, a collector does what it does anyway. -/
theorem step_observed (V : Venue ι ρ τ) (S : Surroundings σ ι ρ τ) (now : Nat) (m : World.Move)
    (w : World (σ × List (Call ι τ)) ι) :
    World.step V S now m (w.among w.around.1) =
      (World.step V S.observed now m w).map fun w' => w'.among w'.around.1 := by
  have hboth : Option.Rel (World.Related fun s s' => s.1 = s') (World.step V S.observed now m w)
      (World.step V S now m (w.among w.around.1)) := (observed_alike S).step rfl m
  cases ho : World.step V S.observed now m w with
  | none =>
    rw [ho] at hboth
    exact rel_none_left hboth
  | some w' =>
    rw [ho] at hboth
    obtain ⟨v, hv, _, rfl, rfl⟩ := rel_some_left hboth
    exact hv

/-- The same, and the same log. -/
def SameLog (R : σ → σ' → Prop) (s : σ × List (Call ι τ)) (s' : σ' × List (Call ι τ)) : Prop :=
  R s.1 s'.1 ∧ s'.2 = s.2

/-- Surroundings that are alike see the same calls. -/
theorem Alike.observed (h : Alike R S S') : Alike (SameLog R) S.observed S'.observed where
  fetch := by
    rintro now instrument request s s' ⟨hs, hlog⟩
    obtain ⟨hsame, hnext⟩ := h.fetch now instrument request _ _ hs
    exact ⟨hsame, hnext, congrArg (· ++ _) hlog⟩
  fetched? := by
    rintro now n s s' ⟨hs, hlog⟩
    refine rel_map (h.fetched? now n _ _ hs) ?_
    rintro p p' ⟨hsame, hnext⟩
    exact ⟨hsame, hnext, hlog⟩
  openStream := by
    rintro now instrument s s' ⟨hs, hlog⟩
    obtain ⟨hsame, hnext⟩ := h.openStream now instrument _ _ hs
    refine ⟨hsame, hnext, ?_⟩
    change s'.2 ++ _ = s.2 ++ _
    rw [hsame, hlog]
  receive := by
    rintro stream s s' ⟨hs, hlog⟩
    obtain ⟨hsame, hnext⟩ := h.receive stream _ _ hs
    refine ⟨hsame, hnext, ?_⟩
    change s'.2 ++ _ = s.2 ++ _
    rw [hsame, hlog]
  dropStream := by
    rintro stream s s' ⟨hs, hlog⟩
    exact ⟨h.dropStream stream _ _ hs, congrArg (· ++ _) hlog⟩
  persistBars := by
    rintro now bars s s' ⟨hs, hlog⟩
    obtain ⟨hsame, hnext⟩ := h.persistBars now bars _ _ hs
    refine ⟨hsame, hnext, ?_⟩
    change s'.2 ++ _ = s.2 ++ _
    rw [hsame, hlog]
  persistTicks := by
    rintro now batch s s' ⟨hs, hlog⟩
    obtain ⟨hsame, hnext⟩ := h.persistTicks now batch _ _ hs
    refine ⟨hsame, hnext, ?_⟩
    change s'.2 ++ _ = s.2 ++ _
    rw [hsame, hlog]
  downstream := by
    refine rel_map h.downstream ?_
    intro d d' hd
    refine ⟨?_, ?_⟩
    · rintro now batch s s' ⟨hs, hlog⟩
      obtain ⟨hsame, hnext⟩ := hd.publish now batch _ _ hs
      exact ⟨hsame, hnext, congrArg (· ++ _) hlog⟩
    · rintro n s s' ⟨hs, hlog⟩
      exact rel_map (hd.published? n _ _ hs) fun _ _ hnext => ⟨hnext, hlog⟩

end

/-! ## What is done in several calls, or in none -/

namespace Surroundings

variable {σ ι ρ τ : Type} {S : Surroundings σ ι ρ τ} {s : σ} {log : List (Call ι τ)} {now : Nat}

theorem receive_observed {stream : Nat} :
    S.observed.receive stream (s, log) =
      ((S.receive stream s).1, (S.receive stream s).2,
        log ++ Call.ofReceived stream (S.receive stream s).1) := rfl

theorem gather_observed (stream n : Nat) :
    S.observed.gather stream n (s, log) =
      ((S.gather stream n s).1, (S.gather stream n s).2,
        log ++ (S.gather stream n s).1.map (.receive stream)) := by
  induction n generalizing s log with
  | zero => exact congrArg (fun l => ([], s, l)) (List.append_nil log).symm
  | succ n ih =>
    rw [gather_succ, gather_succ]
    simp only [receive_observed]
    cases (S.receive stream s).1 with
    | item t =>
      simp only [Call.ofReceived, ih, List.map_cons, List.append_assoc, List.singleton_append]
    | empty => rfl
    | ended => rfl

theorem storeTicks_observed {batch : List Tick} (h : batch ≠ []) :
    S.observed.storeTicks now batch (s, log) =
      ((S.persistTicks now batch s).1, (S.persistTicks now batch s).2,
        log ++ [Call.storeTicks batch (S.persistTicks now batch s).1.isOk]) := by
  rw [storeTicks, if_neg (by simpa using h)]
  rfl

theorem storeBars_observed {bars : List Bar} (h : bars ≠ []) :
    S.observed.storeBars now bars (s, log) =
      ((S.persistBars now bars s).1, (S.persistBars now bars s).2,
        log ++ [Call.storeBars bars (S.persistBars now bars s).1.isOk]) := by
  rw [storeBars, if_neg (by simpa using h)]
  rfl

end Surroundings
end Collector
end MarketFeed
