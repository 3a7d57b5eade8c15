import Mathlib.Data.Nat.Init
import Mathlib.Tactic.ByContra

/-!
# MarketFeed.Proofs.Tasks.History

Histories of something that changes by events.

* `Incident`, `History` — what happened, one event after another, from one state to another.
* `flatMap_concat`, `filterMap_concat`, `concat_eq_append_cons` — what is seen of one incident more.
* `Endless` — a history without an end, by the numbers of its incidents; `Endless.history` — each
  of its beginnings is a history.
* `lasts_or`, `eventually_constant`, `eventually_ge`, `Just.comes` — what can be said of a history
  without an end: a state of affairs lasts or is ended by some incident, a number that does not grow
  comes to rest, one that does not fall stays beyond a bound, and a justly treated event that stays
  possible happens.
-/

namespace MarketFeed

/-- Something that happened: the state before, the event, and the state after. -/
structure Incident (σ ε : Type) where
  before : σ
  event : ε
  after : σ

/-- The incidents that lead from one state to another; `happens` tells what comes of an event, and
none where it cannot happen. -/
inductive History {σ ε : Type} (happens : ε → σ → Option σ) (s : σ) :
    List (Incident σ ε) → σ → Prop where
  | nil : History happens s [] s
  | snoc {h : List (Incident σ ε)} {s' s'' : σ} {e : ε} (hist : History happens s h s')
      (he : happens e s' = some s'') : History happens s (h ++ [⟨s', e, s''⟩]) s''

namespace History

variable {σ ε : Type} {happens : ε → σ → Option σ} {s s' s'' : σ} {h h' : List (Incident σ ε)}

theorem trans (hist : History happens s h s') (hist' : History happens s' h' s'') :
    History happens s (h ++ h') s'' := by
  induction hist' with
  | nil => rwa [List.append_nil]
  | snoc _ he ih =>
    rw [← List.append_assoc]
    exact .snoc ih he

theorem happens_of_mem (hist : History happens s h s') {x : Incident σ ε} (hx : x ∈ h) :
    happens x.event x.before = some x.after := by
  induction hist with
  | nil => cases hx
  | snoc _ he ih =>
    rcases List.mem_append.1 hx with hx | hx
    · exact ih hx
    · obtain rfl := List.mem_singleton.1 hx
      exact he

/-- The events of a schedule, one after another. -/
def replay (happens : ε → σ → Option σ) : List ε → σ → Option (List (Incident σ ε) × σ)
  | [], s => some ([], s)
  | e :: rest, s =>
    (happens e s).bind fun s' =>
      (replay happens rest s').map fun r => (⟨s, e, s'⟩ :: r.1, r.2)

theorem of_replay {es : List ε} (hr : replay happens es s = some (h, s')) :
    History happens s h s' := by
  induction es generalizing s h with
  | nil =>
    cases hr
    exact .nil
  | cons e es ih =>
    obtain ⟨t, ht, hrest⟩ := Option.bind_eq_some_iff.1 hr
    obtain ⟨⟨h₁, t'⟩, h₂, heq⟩ := Option.map_eq_some_iff.1 hrest
    cases heq
    exact (History.nil.snoc ht).trans (ih h₂)

theorem replay_events {es : List ε} (hr : replay happens es s = some (h, s')) :
    h.map Incident.event = es := by
  induction es generalizing s h with
  | nil =>
    cases hr
    rfl
  | cons e es ih =>
    obtain ⟨t, -, hrest⟩ := Option.bind_eq_some_iff.1 hr
    obtain ⟨⟨h₁, t'⟩, h₂, heq⟩ := Option.map_eq_some_iff.1 hrest
    cases heq
    exact congrArg (e :: ·) (ih h₂)

end History

/-! ## One more incident -/

section

variable {α β : Type} (l : List α) (a : α)

theorem flatMap_concat (f : α → List β) : (l ++ [a]).flatMap f = l.flatMap f ++ f a := by
  rw [List.flatMap_append, List.flatMap_singleton]

theorem filterMap_concat (f : α → Option β) :
    (l ++ [a]).filterMap f = l.filterMap f ++ (f a).toList := by
  rw [List.filterMap_append, List.filterMap_cons, List.filterMap_nil]
  cases f a <;> rfl

end

/-- The parts of a list around one of its entries, when there is one entry more. -/
theorem concat_eq_append_cons {α : Type} {xs before after : List α} {x y : α} :
    xs ++ [x] = before ++ y :: after ↔
      (after = [] ∧ xs = before ∧ x = y) ∨
        ∃ rest, after = rest ++ [x] ∧ xs = before ++ y :: rest := by
  constructor
  · intro h
    rcases List.eq_nil_or_concat after with rfl | ⟨rest, z, rfl⟩
    · obtain ⟨hb, hy⟩ := List.append_inj' h rfl
      cases hy
      exact .inl ⟨rfl, hb, rfl⟩
    · rw [List.concat_eq_append, ← List.cons_append, ← List.append_assoc] at h
      obtain ⟨hb, hz⟩ := List.append_inj' h rfl
      cases hz
      exact .inr ⟨rest, List.concat_eq_append, hb⟩
  · rintro (⟨rfl, rfl, rfl⟩ | ⟨rest, rfl, rfl⟩)
    · rfl
    · simp

/-! ## Without an end -/

/-- The states and events of a history without an end. -/
structure Endless {σ ε : Type} (happens : ε → σ → Option σ) (s : Nat → σ) (e : Nat → ε) : Prop where
  goes : ∀ i, happens (e i) (s i) = some (s (i + 1))

/-- The first incidents. -/
def incidents {σ ε : Type} (s : Nat → σ) (e : Nat → ε) (n : Nat) : List (Incident σ ε) :=
  (List.range n).map fun i => ⟨s i, e i, s (i + 1)⟩

section

variable {σ ε : Type} {happens : ε → σ → Option σ} {s : Nat → σ} {e : Nat → ε}

theorem incidents_succ (n : Nat) :
    incidents s e (n + 1) = incidents s e n ++ [⟨s n, e n, s (n + 1)⟩] := by
  rw [incidents, List.range_succ, List.map_append]
  rfl

theorem incidents_mono {i j : Nat} (hij : i ≤ j) : incidents s e i <+: incidents s e j := by
  induction j, hij using Nat.le_induction with
  | base => exact List.prefix_refl _
  | succ j _ ih =>
    rw [incidents_succ]
    exact ih.trans (List.prefix_append _ _)

theorem Endless.history (h : Endless happens s e) (n : Nat) :
    History happens (s 0) (incidents s e n) (s n) := by
  induction n with
  | zero => exact .nil
  | succ n ih =>
    rw [incidents_succ]
    exact .snoc ih (h.goes n)

/-- A schedule and what can go on after it without an end. -/
theorem Endless.of_replay {es : List ε} {t₀ t₁ : σ} {h : List (Incident σ ε)}
    (hr : History.replay happens es t₀ = some (h, t₁)) (hend : Endless happens s e)
    (hstart : s 0 = t₁) :
    ∃ s' e', Endless happens s' e' ∧ s' 0 = t₀ ∧ incidents s' e' es.length = h ∧
      (∀ i, s' (i + es.length) = s i ∧ e' (i + es.length) = e i) ∧
      ∀ i (hi : i < es.length), e' i = es[i] := by
  induction es generalizing t₀ h with
  | nil =>
    cases hr
    exact ⟨s, e, hend, hstart, rfl, fun i => ⟨rfl, rfl⟩, fun i hi => absurd hi (Nat.not_lt_zero i)⟩
  | cons e₀ es ih =>
    obtain ⟨t, ht, hrest⟩ := Option.bind_eq_some_iff.1 hr
    obtain ⟨⟨h₁, t₁'⟩, h₂, heq⟩ := Option.map_eq_some_iff.1 hrest
    cases heq
    obtain ⟨s', e', hend', hstart', hinc, hlate, hearly⟩ := ih h₂
    refine ⟨fun i => i.casesOn t₀ s', fun i => i.casesOn e₀ e', ⟨?_⟩, rfl, ?_, hlate, ?_⟩
    · intro i
      cases i with
      | zero => exact ht.trans (congrArg some hstart'.symm)
      | succ i => exact hend'.goes i
    · rw [incidents, List.length_cons, List.range_succ_eq_map, List.map_cons, List.map_map, ← hinc]
      exact congrArg (⟨t₀, e₀, ·⟩ :: incidents s' e' es.length) hstart'
    · intro i hi
      cases i with
      | zero => rfl
      | succ i => exact hearly i (Nat.lt_of_succ_lt_succ hi)

/-- What holds goes on to hold, or there is a last moment at which it holds. -/
theorem lasts_or {P : Nat → Prop} {i : Nat} (hi : P i) :
    (∀ j, i ≤ j → P j) ∨ ∃ j, i ≤ j ∧ P j ∧ ¬ P (j + 1) := by
  by_cases hend : ∃ j, i ≤ j ∧ P j ∧ ¬ P (j + 1)
  · exact .inr hend
  · refine .inl ?_
    intro j hj
    induction j, hj using Nat.le_induction with
    | base => exact hi
    | succ j hj ih =>
      by_contra hn
      exact hend ⟨j, hj, ih, hn⟩

/-- A number that never grows comes to rest. -/
theorem eventually_constant {f : Nat → Nat} {i : Nat} (h : ∀ j, i ≤ j → f (j + 1) ≤ f j) :
    ∃ j, i ≤ j ∧ ∀ k, j ≤ k → f k = f j := by
  induction hn : f i using Nat.strongRecOn generalizing i with
  | _ n ih =>
    rcases lasts_or (P := fun j => f j = n) hn with hrest | ⟨j, hj, hfj, hne⟩
    · exact ⟨i, Nat.le_refl i, fun k hk => (hrest k hk).trans hn.symm⟩
    · have hlt : f (j + 1) < n := Nat.lt_of_le_of_ne (hfj ▸ h j hj) hne
      obtain ⟨k, hk, hconst⟩ := ih _ hlt (fun k hk => h k (by omega)) rfl
      exact ⟨k, by omega, hconst⟩

/-- A number that never falls, and goes beyond every bound, stays beyond it. -/
theorem eventually_ge {f : Nat → Nat} (hle : ∀ i, f i ≤ f (i + 1)) (hpasses : ∀ n, ∃ i, n ≤ f i)
    (n : Nat) : ∃ i, ∀ j, i ≤ j → n ≤ f j := by
  obtain ⟨i, hi⟩ := hpasses n
  refine ⟨i, fun j hj => ?_⟩
  induction j, hj using Nat.le_induction with
  | base => exact hi
  | succ j _ ih => exact Nat.le_trans ih (hle j)

/-- An event is treated justly: again and again it happens, or it is not possible. -/
def Just (happens : ε → σ → Option σ) (s : Nat → σ) (e : Nat → ε) (event : ε) : Prop :=
  ∀ i, ∃ j, i ≤ j ∧ (e j = event ∨ happens event (s j) = none)

/-- An event that becomes possible for good as long as it does not happen will happen. -/
theorem Just.comes {event : ε} (h : Just happens s e event) {P : Nat → Prop} {i : Nat}
    (hi : P i) (hkeep : ∀ j, i ≤ j → P j → e j ≠ event → P (j + 1))
    (hready : (∀ j, i ≤ j → P j) → ∃ k, ∀ j, k ≤ j → happens event (s j) ≠ none) :
    ∃ j, i ≤ j ∧ P j ∧ e j = event := by
  rcases lasts_or hi with hlast | ⟨j, hj, hP, hn⟩
  · obtain ⟨k, hk⟩ := hready hlast
    obtain ⟨j, hj, he | hnone⟩ := h (max i k)
    · exact ⟨j, by omega, hlast j (by omega), he⟩
    · exact absurd hnone (hk j (by omega))
  · refine ⟨j, hj, hP, ?_⟩
    by_contra he
    exact hn (hkeep j hj hP he)

/-- What comes before it does not matter for whether an event is treated justly. -/
theorem Just.of_later {s' : Nat → σ} {e' : Nat → ε} {event : ε} {n : Nat}
    (h : Just happens s e event) (hlate : ∀ i, s' (i + n) = s i ∧ e' (i + n) = e i) :
    Just happens s' e' event := by
  intro i
  obtain ⟨j, hj, hjust⟩ := h i
  refine ⟨j + n, by omega, ?_⟩
  rwa [(hlate j).1, (hlate j).2]

end
end MarketFeed
