import Mathlib.Data.Set.Finite.List
import Mathlib.Order.Bounds.Basic
import MarketFeed.Proofs.Pacing.Window
import MarketFeed.Proofs.Tasks.History

/-!
# MarketFeed.Proofs.Pacing.Front

How a caller comes to the front of a gate, and past it.

* `count_join`, `count_leave`, `count_tail` — how often a caller is in the queue.
* `Gate.acquire?_of_past` — the caller at the front gets its grant once all others have left the
  window.
* `Nears`, `Goes.nears` — whatever happens, a caller in the queue moves up, or all before it stays
  as it was.
* `not_queued_for_good` — so it does not wait for ever, if the one at the front always goes on.
-/

namespace MarketFeed
namespace Gate

variable {α : Type} [DecidableEq α] {g g' : Gate α} {new : List Nat} {now : Nat} {who : α}

/-! ## Counting callers -/

theorem count_join (a : α) :
    (g.join who).queue.count a = g.queue.count a + if who = a then 1 else 0 := by
  rw [join, List.count_append, List.count_singleton]
  simp [beq_iff_eq]

theorem count_leave (a : α) :
    (g.leave who).queue.count a = if who = a then 0 else g.queue.count a := by
  split
  · rename_i heq
    subst heq
    exact List.count_eq_zero_of_not_mem (by simp [leave])
  · rename_i hne
    exact List.count_filter (by simpa using fun heq => hne heq.symm)

theorem count_tail (h : g.queue.head? = some who) (a : α) :
    g.queue.count a = g.queue.tail.count a + if who = a then 1 else 0 := by
  obtain ⟨rest, hrest⟩ := List.head?_eq_some_iff.1 h
  rw [hrest, List.count_cons, List.tail_cons]
  simp [beq_iff_eq]

/-! ## At the front -/

theorem acquire?_of_past (hfront : g.queue.head? = some who)
    (hpast : ∀ a ∈ g.limiter.recent, a + g.limiter.per ≤ now) :
    ∃ g', g.acquire? now who = some g' := by
  have hevict : (g.limiter.evict now).recent = [] := by
    rw [Limiter.evict, List.dropWhile_eq_nil_iff]
    intro a ha
    exact Limiter.isOver_iff.2 (hpast a ha)
  have hrate : (g.limiter.evict now).recent.length < (g.limiter.evict now).rate := by
    rw [hevict]
    exact g.limiter.rate_pos
  refine ⟨⟨{ g.limiter.evict now with recent := (g.limiter.evict now).recent ++ [now] },
    g.queue.tail⟩, ?_⟩
  rw [acquire?, if_pos hfront]
  simp only [Limiter.acquire, if_pos hrate]

theorem count?_of_front (hfront : g.queue.head? = some who) :
    g.count? now who = some ((g.limiter.inWindow now).1, ⟨(g.limiter.inWindow now).2,
      g.queue.tail⟩) := if_pos hfront

/-- When another caller gives up, one in the queue moves up or that one was not before it. -/
theorem idxOf_filter_lt_or {l : List α} {gone : α} (hne : who ≠ gone) :
    (l.filter (· ≠ gone)).idxOf who < l.idxOf who ∨
      (l.filter (· ≠ gone)).idxOf who = l.idxOf who ∧
        (who ∈ l → (l.filter (· ≠ gone)).head? = l.head?) := by
  induction l with
  | nil => exact .inr ⟨rfl, fun h => absurd h (List.not_mem_nil)⟩
  | cons a rest ih =>
    by_cases hgone : a = gone
    · have hother : a ≠ who := fun heq => hne (heq.symm.trans hgone)
      rw [List.filter_cons_of_neg (by simpa using hgone), List.idxOf_cons_ne _ hother]
      rcases ih with hlt | ⟨heq, -⟩ <;> omega
    · rw [List.filter_cons_of_pos (by simpa using hgone)]
      by_cases hwho : a = who
      · subst hwho
        exact .inr ⟨by rw [List.idxOf_cons_self, List.idxOf_cons_self], fun _ => rfl⟩
      · rw [List.idxOf_cons_ne _ hwho, List.idxOf_cons_ne _ hwho]
        rcases ih with hlt | ⟨heq, -⟩
        · exact .inl (Nat.succ_lt_succ hlt)
        · exact .inr ⟨by rw [heq], fun _ => rfl⟩

/-- The caller at the front leaves the queue. -/
theorem idxOf_tail_lt {l : List α} (hone : l.count who ≤ 1) (hmem : who ∈ l.tail) :
    l.tail.idxOf who < l.idxOf who := by
  cases l with
  | nil => cases hmem
  | cons a rest =>
    have hother : a ≠ who := by
      rintro rfl
      have hpos := List.count_pos_iff.2 hmem
      rw [List.count_cons_self] at hone
      rw [List.tail_cons] at hpos
      omega
    rw [List.idxOf_cons_ne _ hother]
    exact Nat.lt_succ_self _

/-- A caller moves up in the queue, or the front stays and no recent grant is added. -/
def Nears (who : α) (g g' : Gate α) : Prop :=
  g'.queue.idxOf who < g.queue.idxOf who ∨
    g'.queue.idxOf who = g.queue.idxOf who ∧ g'.queue.head? = g.queue.head? ∧
      g'.limiter.per = g.limiter.per ∧ ∀ a ∈ g'.limiter.recent, a ∈ g.limiter.recent

theorem Nears.refl (who : α) (g : Gate α) : Nears who g g := .inr ⟨rfl, rfl, rfl, fun _ ha => ha⟩

theorem Nears.trans {g'' : Gate α} (h : Nears who g g') (h' : Nears who g' g'') :
    Nears who g g'' := by
  rcases h with hlt | ⟨heq, hfront, hper, hrecent⟩
  · rcases h' with hlt' | ⟨heq', -⟩
    · exact .inl (Nat.lt_trans hlt' hlt)
    · exact .inl (heq' ▸ hlt)
  · rcases h' with hlt' | ⟨heq', hfront', hper', hrecent'⟩
    · exact .inl (heq ▸ hlt')
    · exact .inr ⟨heq'.trans heq, hfront'.trans hfront, hper'.trans hper,
        fun a ha => hrecent a (hrecent' a ha)⟩

/-- Whatever happens at a gate, a caller that stays in its queue comes nearer to the front. -/
theorem Goes.nears (h : Goes now g new g') (hone : g.queue.count who ≤ 1)
    (hmem : who ∈ g.queue) (hmem' : who ∈ g'.queue) : Nears who g g' := by
  have hper := h.bounds.2
  cases h with
  | joins other =>
    refine .inr ⟨?_, ?_, hper, fun _ ha => ha⟩
    · exact List.idxOf_append_of_mem hmem
    · rw [join, List.head?_append_of_ne_nil _ (List.ne_nil_of_mem hmem)]
  | leaves other =>
    have hne : who ≠ other := by simpa using (List.mem_filter.1 hmem').2
    rcases idxOf_filter_lt_or hne with hlt | ⟨heq, hfront⟩
    · exact .inl hlt
    · exact .inr ⟨heq, hfront hmem, hper, fun _ ha => ha⟩
  | passes other hpass =>
    obtain ⟨l, -, -, rfl⟩ := acquire?_eq_some hpass
    exact .inl (idxOf_tail_lt hone hmem')
  | sleeps other hfront hsleep =>
    obtain ⟨-, rfl⟩ := Limiter.acquire_notBefore hsleep
    exact .inr ⟨rfl, rfl, hper, fun a ha => (List.dropWhile_sublist _).subset ha⟩
  | counts other hcount =>
    obtain ⟨-, -, rfl⟩ := count?_eq_some hcount
    exact .inl (idxOf_tail_lt hone hmem')

/-- No caller waits for ever: the queue moves on until it is at the front, and then the window moves
on. What is at the front then has to go on, and so a caller behind it moves up. -/
theorem not_queued_for_good {gate : Nat → Gate α} {time : Nat → Nat} {i : Nat}
    (hmem : ∀ j, i ≤ j → who ∈ (gate j).queue)
    (hnears : ∀ j, i ≤ j → Nears who (gate j) (gate (j + 1)))
    (hpasses : ∀ n, ∃ k, ∀ j, k ≤ j → n ≤ time j)
    (hfront : ∀ first k, i ≤ k → (∀ j, k ≤ j → (gate j).queue.head? = some first ∧
        ∀ a ∈ (gate j).limiter.recent, a + (gate j).limiter.per ≤ time j) →
      ∃ j, k ≤ j ∧ (gate (j + 1)).queue.idxOf who < (gate j).queue.idxOf who) : False := by
  obtain ⟨k, hk, hrest⟩ := eventually_constant
    (f := fun j => (gate j).queue.idxOf who) (i := i) (by
      intro j hj
      rcases hnears j hj with hlt | ⟨heq, -⟩
      · exact Nat.le_of_lt hlt
      · exact Nat.le_of_eq heq)
  -- from here on the front stays, and there are no new grants
  have hstill : ∀ j, k ≤ j → (gate j).queue.head? = (gate k).queue.head? ∧
      (gate j).limiter.per = (gate k).limiter.per ∧
      ∀ a ∈ (gate j).limiter.recent, a ∈ (gate k).limiter.recent := by
    intro j hj
    induction j, hj using Nat.le_induction with
    | base => exact ⟨rfl, rfl, fun _ ha => ha⟩
    | succ j hj ih =>
      rcases hnears j (by omega) with hlt | ⟨-, hsame, hper, hrecent⟩
      · rw [hrest j hj, hrest (j + 1) (by omega)] at hlt
        exact absurd hlt (Nat.lt_irrefl _)
      · exact ⟨hsame.trans ih.1, hper.trans ih.2.1, fun a ha => ih.2.2 a (hrecent a ha)⟩
  obtain ⟨first, hfirst⟩ : ∃ first, (gate k).queue.head? = some first := by
    rw [← Option.isSome_iff_exists, List.isSome_head?]
    exact List.ne_nil_of_mem (hmem k hk)
  obtain ⟨bound, hbound⟩ := (List.finite_toSet (gate k).limiter.recent).bddAbove
  obtain ⟨m, hm⟩ := hpasses (bound + (gate k).limiter.per)
  obtain ⟨j, hj, hlt⟩ := hfront first (max k m) (by omega) (by
    intro j hj
    obtain ⟨hsame, hper, hrecent⟩ := hstill j (by omega)
    refine ⟨hsame.trans hfirst, fun a ha => ?_⟩
    rw [hper]
    exact Nat.le_trans (Nat.add_le_add_right (hbound (hrecent a ha)) _) (hm j (by omega)))
  rw [hrest j (by omega), hrest (j + 1) (by omega)] at hlt
  exact Nat.lt_irrefl _ hlt

end Gate
end MarketFeed
