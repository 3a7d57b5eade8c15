import Mathlib.Data.List.Basic

/-!
# MarketFeed.Proofs.Tasks.Eager

What goes on as soon as it can, and can go on in one way only.

* `Eager` — what was done at which times: each step at the first time at which it is possible.
* `Eager.last`, `Eager.before` — the way to a step.
* `Eager.rested` — since the last step, none was possible.
* `Eager.meets` — of two courses, one goes on from where the other is.
* `Eager.same_before` — up to a time that both have come to, they are the same.
-/

namespace MarketFeed

/-- What was done at which times, the time now, and the state now. What can be done may depend on
what was done before; time passes only while nothing can. -/
inductive Eager {θ α : Type} (can : List (Nat × α) → Nat → θ → α → θ → Prop) (start : Nat)
    (s₀ : θ) : List (Nat × α) → Nat → θ → Prop where
  | start : Eager can start s₀ [] start s₀
  | goes {past : List (Nat × α)} {now : Nat} {s s' : θ} {a : α}
      (h : Eager can start s₀ past now s) (hcan : can past now s a s') :
      Eager can start s₀ (past ++ [(now, a)]) now s'
  | waits {past : List (Nat × α)} {now time : Nat} {s : θ} (h : Eager can start s₀ past now s)
      (hle : now ≤ time) (hrest : ∀ T, now ≤ T → T < time → ∀ a s', ¬ can past T s a s') :
      Eager can start s₀ past time s

namespace Eager

variable {θ α : Type} {can : List (Nat × α) → Nat → θ → α → θ → Prop} {start now now' : Nat}
  {s₀ s s' : θ} {past past' : List (Nat × α)} {x : Nat × α}

theorem start_le (h : Eager can start s₀ past now s) : start ≤ now := by
  induction h with
  | start => exact Nat.le_refl _
  | goes _ _ ih => exact ih
  | waits _ hle _ ih => exact Nat.le_trans ih hle

theorem le_now (h : Eager can start s₀ past now s) : ∀ y ∈ past, y.1 ≤ now := by
  induction h with
  | start => exact fun y hy => absurd hy List.not_mem_nil
  | goes _ _ ih =>
    intro y hy
    rcases List.mem_append.1 hy with hy | hy
    · exact ih y hy
    · obtain rfl := List.mem_singleton.1 hy
      exact Nat.le_refl _
  | waits _ hle _ ih => exact fun y hy => Nat.le_trans (ih y hy) hle

theorem ordered (h : Eager can start s₀ past now s) : past.Pairwise fun y z => y.1 ≤ z.1 := by
  induction h with
  | start => exact .nil
  | goes h _ ih =>
    rw [List.pairwise_append]
    refine ⟨ih, List.pairwise_singleton _ _, fun y hy z hz => ?_⟩
    obtain rfl := List.mem_singleton.1 hz
    exact h.le_now y hy
  | waits _ _ _ ih => exact ih

/-- Since the last step, nothing could be done. -/
theorem rested (h : Eager can start s₀ past now s) {T : Nat} (hstart : start ≤ T)
    (hpast : ∀ y ∈ past, y.1 ≤ T) (hT : T < now) (a : α) (s' : θ) : ¬ can past T s a s' := by
  induction h with
  | start => exact absurd hT (Nat.not_lt.2 hstart)
  | goes _ _ _ =>
    exact absurd hT (Nat.not_lt.2 (hpast _ (List.mem_append_right _ (List.mem_singleton_self _))))
  | @waits _ now _ _ h _ hrest ih =>
    by_cases hnow : now ≤ T
    · exact hrest T hnow hT a s'
    · exact ih hpast (Nat.lt_of_not_le hnow)

/-- The way to the last step. -/
theorem last (h : Eager can start s₀ (past ++ [x]) now s) :
    ∃ s₁, Eager can start s₀ past x.1 s₁ ∧ can past x.1 s₁ x.2 s := by
  generalize hall : past ++ [x] = all at h
  induction h with
  | start => exact absurd hall (List.append_ne_nil_of_right_ne_nil _ (List.cons_ne_nil _ _))
  | goes h hcan _ =>
    obtain ⟨rfl, rfl⟩ := List.append_singleton_inj.1 hall
    exact ⟨_, h, hcan⟩
  | waits _ _ _ ih => exact ih hall

/-- The way to some step. -/
theorem before (h : Eager can start s₀ past' now s) (hx : past ++ [x] <+: past') :
    ∃ s₁ s₂, Eager can start s₀ past x.1 s₁ ∧ can past x.1 s₁ x.2 s₂ := by
  induction h with
  | start =>
    exact absurd (List.prefix_nil.1 hx)
      (List.append_ne_nil_of_right_ne_nil _ (List.cons_ne_nil _ _))
  | goes h hcan ih =>
    rcases List.prefix_concat_iff.1 hx with heq | hx
    · obtain ⟨rfl, rfl⟩ := List.append_singleton_inj.1 heq
      exact ⟨_, _, h, hcan⟩
    · exact ih hx
  | waits _ _ _ ih => exact ih hx

theorem of_nil (h : Eager can start s₀ [] now s) : s = s₀ := by
  generalize hnil : ([] : List (Nat × α)) = past at h
  induction h with
  | start => rfl
  | goes => exact absurd hnil.symm (List.append_ne_nil_of_right_ne_nil _ (List.cons_ne_nil _ _))
  | waits _ _ _ ih => exact ih hnil

/-! ## One way to go on -/

/-- At a time there is one way to go on. -/
def Single (can : List (Nat × α) → Nat → θ → α → θ → Prop) : Prop :=
  ∀ past T s a b s₁ s₂, can past T s a s₁ → can past T s b s₂ → a = b ∧ s₁ = s₂

variable (hsingle : Single can)

include hsingle

/-- What was done tells the state. -/
theorem state_eq (h : Eager can start s₀ past now s) (h' : Eager can start s₀ past now' s') :
    s = s' := by
  induction h generalizing now' s' with
  | start => exact h'.of_nil.symm
  | goes h hcan ih =>
    obtain ⟨s₁, h₁, hcan'⟩ := h'.last
    obtain rfl := ih h₁
    exact (hsingle _ _ _ _ _ _ _ hcan hcan').2
  | waits _ _ _ ih => exact ih h'

/-- Two courses are at the same point, or one goes on from where the other is, no earlier than the
other has come to. -/
theorem meets (h : Eager can start s₀ past now s) (h' : Eager can start s₀ past' now' s') :
    past = past' ∨ (∃ x, past ++ [x] <+: past' ∧ now ≤ x.1) ∨
      ∃ x, past' ++ [x] <+: past ∧ now' ≤ x.1 := by
  induction h with
  | start =>
    cases past' with
    | nil => exact .inl rfl
    | cons x rest =>
      have hx : [] ++ [x] <+: x :: rest := ⟨rest, rfl⟩
      obtain ⟨s₁, -, h₁, -⟩ := h'.before hx
      exact .inr (.inl ⟨x, hx, h₁.start_le⟩)
  | @goes past now s s' a h hcan ih =>
    rcases ih with rfl | ⟨x, hx, hle⟩ | ⟨x, hx, hle⟩
    · -- the other has not come to a later time, since there this step was possible
      refine .inr (.inr ⟨_, List.prefix_refl _, Nat.le_of_not_lt fun hlt => ?_⟩)
      obtain rfl := state_eq hsingle h h'
      exact h'.rested h.start_le h.le_now hlt _ _ hcan
    · obtain ⟨s₁, s₂, h₁, hcan'⟩ := h'.before hx
      obtain rfl := state_eq hsingle h h₁
      have hnow : now = x.1 := by
        refine Nat.le_antisymm hle (Nat.le_of_not_lt fun hlt => ?_)
        exact h₁.rested h.start_le h.le_now hlt _ _ hcan
      obtain ⟨T, b⟩ := x
      obtain rfl : now = T := hnow
      obtain ⟨rfl, -⟩ := hsingle _ _ _ _ _ _ _ hcan hcan'
      obtain ⟨rest, rfl⟩ := hx
      cases rest with
      | nil => exact .inl (List.append_nil _).symm
      | cons y rest =>
        refine .inr (.inl ⟨y, ⟨rest, by rw [List.append_assoc]; rfl⟩, ?_⟩)
        exact (List.pairwise_append.1 h'.ordered).2.2 (now, a)
          (List.mem_append_right _ (List.mem_singleton_self _)) y List.mem_cons_self
    · exact .inr (.inr ⟨x, hx.trans (List.prefix_append _ _), hle⟩)
  | @waits past now time s h hle hrest ih =>
    rcases ih with rfl | ⟨x, hx, hlex⟩ | ⟨x, hx, hlex⟩
    · exact .inl rfl
    · refine .inr (.inl ⟨x, hx, Nat.le_of_not_lt fun hlt => ?_⟩)
      obtain ⟨s₁, s₂, h₁, hcan⟩ := h'.before hx
      obtain rfl := state_eq hsingle h h₁
      exact hrest x.1 hlex hlt _ _ hcan
    · exact .inr (.inr ⟨x, hx, hlex⟩)

omit hsingle in
/-- What comes after a time changes nothing of what was before. -/
theorem filter_of_prefix (h : Eager can start s₀ past' now' s') (hx : past ++ [x] <+: past')
    {T : Nat} (hT : T ≤ x.1) : past'.filter (·.1 < T) = past.filter (·.1 < T) := by
  obtain ⟨rest, rfl⟩ := hx
  have hordered := (List.pairwise_append.1 h.ordered).2.2 x
    (List.mem_append_right _ (List.mem_singleton_self _))
  have hlate : ∀ y ∈ x :: rest, ¬ decide (y.1 < T) = true := by
    intro y hy
    rw [decide_eq_true_iff]
    rcases List.mem_cons.1 hy with rfl | hy
    · exact Nat.not_lt.2 hT
    · exact Nat.not_lt.2 (Nat.le_trans hT (hordered y hy))
  rw [List.append_assoc, List.singleton_append, List.filter_append,
    List.filter_eq_nil_iff.2 hlate, List.append_nil]

/-- Two courses are the same up to a time that both have come to. -/
theorem same_before (h : Eager can start s₀ past now s) (h' : Eager can start s₀ past' now' s')
    {T : Nat} (hT : T ≤ now) (hT' : T ≤ now') :
    past.filter (·.1 < T) = past'.filter (·.1 < T) := by
  rcases meets hsingle h h' with rfl | ⟨x, hx, hle⟩ | ⟨x, hx, hle⟩
  · rfl
  · exact (h'.filter_of_prefix hx (Nat.le_trans hT hle)).symm
  · exact h.filter_of_prefix hx (Nat.le_trans hT' hle)

end Eager
end MarketFeed
