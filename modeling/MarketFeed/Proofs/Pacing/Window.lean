import Mathlib.Data.List.NodupEquivFin
import Mathlib.Data.List.TakeWhile
import MarketFeed.Pacing.Gate

/-!
# MarketFeed.Proofs.Pacing.Window

The sliding window holds: no window of its length ever sees more grants than allowed.

* `Gate.Goes`, `Gate.Course` — what can happen at a gate, at any times of a clock that never goes
  back. A caller that sleeps may try again at any time; callers come and give up as they like.
* `Limiter.Accounts` — what a limiter knows of the grants it gave: it forgets only what has left
  the window. `Accounts.goes` — whatever happens keeps this.
* `Limiter.window_respected` — so any two grants that are `rate` apart are `per` apart in time.
-/

namespace MarketFeed

/-! ## What happens at a gate -/

namespace Gate

variable {α : Type} [DecidableEq α]

/-- What happens at a gate at some time, with the grants that it comes to. -/
inductive Goes (now : Nat) (g : Gate α) : List Nat → Gate α → Prop where
  | joins (who : α) : Goes now g [] (g.join who)
  /-- A caller gives up, at the front or behind it. -/
  | leaves (who : α) : Goes now g [] (g.leave who)
  | passes (who : α) {g' : Gate α} (h : g.acquire? now who = some g') : Goes now g [now] g'
  /-- The caller at the front tries in vain and sleeps, if not for the first time. -/
  | sleeps (who : α) {time : Nat} {l : Limiter} (hq : g.queue.head? = some who)
      (h : g.limiter.acquire now = (.notBefore time, l)) : Goes now g [] { g with limiter := l }
  | counts (who : α) {n : Nat} {g' : Gate α} (h : g.count? now who = some (n, g')) :
      Goes now g [] g'

/-- A course of events from one time to another, with its grants. -/
inductive Course (start : Nat) (g : Gate α) : List Nat → Nat → Gate α → Prop where
  | refl : Course start g [] start g
  | later {grants : List Nat} {now time : Nat} {g' : Gate α} (h : Course start g grants now g')
      (hle : now ≤ time) : Course start g grants time g'
  | goes {grants new : List Nat} {now : Nat} {g' g'' : Gate α} (h : Course start g grants now g')
      (hg : Goes now g' new g'') : Course start g (grants ++ new) now g''

end Gate

/-! ## The accounts of a limiter -/

/-- Of any two grants that are `n` apart, the later one comes `per` later at least. -/
def Spaced (n per : Nat) (grants : List Nat) : Prop :=
  ∀ i a b, grants[i]? = some a → grants[i + n]? = some b → a + per ≤ b

namespace Limiter

/-- What a limiter knows at a time of all the grants that it gave: the ones it has forgotten have
left the window. -/
structure Accounts (l : Limiter) (grants : List Nat) (now : Nat) : Prop where
  sorted : grants.Pairwise (· ≤ ·)
  past : ∀ a ∈ grants, a ≤ now
  few : l.recent.length ≤ l.rate
  kept : ∃ old, grants = old ++ l.recent ∧ ∀ a ∈ old, a + l.per ≤ now
  spaced : Spaced l.rate l.per grants

variable {l l' : Limiter} {grants : List Nat} {now time : Nat}

theorem acquire_granted (h : l.acquire now = (.granted, l')) :
    (l.evict now).recent.length < l.rate ∧
      l' = { l.evict now with recent := (l.evict now).recent ++ [now] } := by
  unfold acquire at h
  simp only at h
  split at h
  · rename_i hlt
    cases h
    exact ⟨hlt, rfl⟩
  · cases h

theorem acquire_notBefore (h : l.acquire now = (.notBefore time, l')) :
    l.rate ≤ (l.evict now).recent.length ∧ l' = l.evict now := by
  unfold acquire at h
  simp only at h
  split at h
  · cases h
  · rename_i hle
    cases h
    exact ⟨Nat.not_lt.1 hle, rfl⟩

theorem isOver_iff {a : Nat} : l.isOver now a = true ↔ a + l.per ≤ now := by
  have hpos := l.per_pos
  simp only [isOver, decide_eq_true_eq]
  omega

namespace Accounts

theorem new (h : l.recent = []) : Accounts l [] now where
  sorted := .nil
  past := by simp
  few := by simp [h]
  kept := ⟨[], by simp [h], by simp⟩
  spaced := by simp [Spaced]

theorem later (h : Accounts l grants now) (hle : now ≤ time) : Accounts l grants time := by
  obtain ⟨old, hsplit, hold⟩ := h.kept
  exact
    { h with
      past := fun a ha => Nat.le_trans (h.past a ha) hle
      kept := ⟨old, hsplit, fun a ha => Nat.le_trans (hold a ha) hle⟩ }

/-- What is evicted goes to the forgotten ones. -/
theorem evict (h : Accounts l grants now) : Accounts (l.evict now) grants now := by
  obtain ⟨old, hsplit, hold⟩ := h.kept
  refine
    { h with
      few := Nat.le_trans (List.dropWhile_sublist _).length_le h.few
      kept := ⟨old ++ l.recent.takeWhile (l.isOver now), ?_, ?_⟩ }
  · rw [List.append_assoc]
    exact hsplit.trans (congrArg (old ++ ·) List.takeWhile_append_dropWhile.symm)
  · intro a ha
    rcases List.mem_append.1 ha with ha | ha
    · exact hold a ha
    · exact isOver_iff.1 (List.mem_takeWhile_imp ha)

theorem spaced_concat (h : Accounts l grants now) (hlt : l.recent.length < l.rate) :
    Spaced l.rate l.per (grants ++ [now]) := by
  obtain ⟨old, hsplit, hold⟩ := h.kept
  intro i a b ha hb
  have hlen : grants.length = old.length + l.recent.length := by rw [hsplit, List.length_append]
  rcases Nat.lt_trichotomy (i + l.rate) grants.length with hi | hi | hi
  · rw [List.getElem?_append_left (by omega)] at ha
    rw [List.getElem?_append_left hi] at hb
    exact h.spaced i a b ha hb
  · -- the new grant has the one `rate` before it among the forgotten
    rw [hi, List.getElem?_concat_length] at hb
    rw [List.getElem?_append_left (by omega), hsplit,
      List.getElem?_append_left (by omega)] at ha
    cases hb
    exact hold a (List.mem_of_getElem? ha)
  · rw [List.getElem?_eq_none (by rw [List.length_append, List.length_singleton]; omega)] at hb
    cases hb

theorem grant (h : Accounts l grants now) (hlt : l.recent.length < l.rate) :
    Accounts { l with recent := l.recent ++ [now] } (grants ++ [now]) now := by
  obtain ⟨old, hsplit, hold⟩ := h.kept
  refine ⟨?_, ?_, ?_, ⟨old, ?_, hold⟩, h.spaced_concat hlt⟩
  · rw [List.pairwise_append]
    refine ⟨h.sorted, List.pairwise_singleton _ _, ?_⟩
    intro a ha b hb
    rw [List.mem_singleton] at hb
    exact hb ▸ h.past a ha
  · intro a ha
    rcases List.mem_append.1 ha with ha | ha
    · exact h.past a ha
    · rw [List.mem_singleton] at ha
      exact Nat.le_of_eq ha
  · rw [List.length_append, List.length_singleton]
    exact hlt
  · rw [hsplit, List.append_assoc]

theorem granted (h : Accounts l grants now) (ha : l.acquire now = (.granted, l')) :
    Accounts l' (grants ++ [now]) now := by
  obtain ⟨hlt, rfl⟩ := acquire_granted ha
  exact h.evict.grant hlt

theorem notBefore (h : Accounts l grants now) (ha : l.acquire now = (.notBefore time, l')) :
    Accounts l' grants now := by
  obtain ⟨-, rfl⟩ := acquire_notBefore ha
  exact h.evict

/-- What the limiter still holds is sorted. -/
theorem recent_sorted (h : Accounts l grants now) : l.recent.Pairwise (· ≤ ·) := by
  obtain ⟨old, hsplit, -⟩ := h.kept
  exact (List.pairwise_append.1 (hsplit ▸ h.sorted)).2.1

end Accounts
end Limiter

/-! ## The window at a gate -/

namespace Gate

variable {α : Type} [DecidableEq α] {g g' : Gate α} {grants new : List Nat} {now start time : Nat}

theorem acquire?_eq_some {who : α} (h : g.acquire? now who = some g') :
    ∃ l, g.limiter.acquire now = (.granted, l) ∧ g.queue.head? = some who ∧
      g' = ⟨l, g.queue.tail⟩ := by
  unfold acquire? at h
  split at h
  · rename_i hq
    split at h
    · rename_i l hl
      cases h
      exact ⟨l, hl, hq, rfl⟩
    · cases h
  · cases h

theorem count?_eq_some {who : α} {n : Nat} (h : g.count? now who = some (n, g')) :
    g.queue.head? = some who ∧ n = (g.limiter.evict now).recent.length ∧
      g' = ⟨g.limiter.evict now, g.queue.tail⟩ := by
  unfold count? at h
  split at h
  · rename_i hq
    cases h
    exact ⟨hq, rfl, rfl⟩
  · cases h

/-- The bounds of the window never change. -/
theorem Goes.bounds (h : Goes now g new g') :
    g'.limiter.rate = g.limiter.rate ∧ g'.limiter.per = g.limiter.per := by
  cases h with
  | joins who => exact ⟨rfl, rfl⟩
  | leaves who => exact ⟨rfl, rfl⟩
  | passes who h =>
    obtain ⟨l, hl, -, rfl⟩ := acquire?_eq_some h
    obtain ⟨-, rfl⟩ := Limiter.acquire_granted hl
    exact ⟨rfl, rfl⟩
  | sleeps who hq h =>
    obtain ⟨-, rfl⟩ := Limiter.acquire_notBefore h
    exact ⟨rfl, rfl⟩
  | counts who h =>
    obtain ⟨-, -, rfl⟩ := count?_eq_some h
    exact ⟨rfl, rfl⟩

/-- Whatever happens at a gate, its limiter forgets only what has left the window. -/
theorem Goes.accounts (h : Goes now g new g') (ha : g.limiter.Accounts grants now) :
    g'.limiter.Accounts (grants ++ new) now := by
  cases h with
  | joins who => rwa [List.append_nil]
  | leaves who => rwa [List.append_nil]
  | passes who h =>
    obtain ⟨l, hl, -, rfl⟩ := acquire?_eq_some h
    exact ha.granted hl
  | sleeps who hq h =>
    rw [List.append_nil]
    exact ha.notBefore h
  | counts who h =>
    obtain ⟨-, -, rfl⟩ := count?_eq_some h
    rw [List.append_nil]
    exact ha.evict

namespace Course

theorem trans {grants' : List Nat} {g'' : Gate α} (h : Course start g grants now g')
    (h' : Course now g' grants' time g'') : Course start g (grants ++ grants') time g'' := by
  induction h' with
  | refl => rwa [List.append_nil]
  | later _ hle ih => exact ih.later hle
  | goes _ hg ih =>
    rw [← List.append_assoc]
    exact ih.goes hg

theorem bounds (h : Course start g grants now g') :
    g'.limiter.rate = g.limiter.rate ∧ g'.limiter.per = g.limiter.per := by
  induction h with
  | refl => exact ⟨rfl, rfl⟩
  | later _ _ ih => exact ih
  | goes _ hg ih => exact ⟨hg.bounds.1.trans ih.1, hg.bounds.2.trans ih.2⟩

theorem accounts (h : Course start g grants now g') (hg : g.limiter.recent = []) :
    g'.limiter.Accounts grants now := by
  induction h with
  | refl => exact .new hg
  | later _ hle ih => exact ih.later hle
  | goes _ hgo ih => exact hgo.accounts ih

end Course
end Gate

/-- Grants that are spaced fill no half-open window beyond its bound. -/
theorem Spaced.length_filter_le {n per : Nat} {grants : List Nat} (hs : Spaced n per grants)
    (hsorted : grants.Pairwise (· ≤ ·)) (t : Nat) :
    (grants.filter fun a => t ≤ a ∧ a < t + per).length ≤ n := by
  by_contra hlong
  rw [Nat.not_le] at hlong
  -- where the first and the last of `n + 1` grants in the window stand in the whole list
  obtain ⟨f, hf⟩ := List.sublist_iff_exists_orderEmbedding_getElem?_eq.1
    (List.filter_sublist (l := grants) (p := fun a => t ≤ a ∧ a < t + per))
  obtain ⟨a, ha⟩ : ∃ a, grants[f 0]? = some a :=
    ⟨_, (hf 0).symm.trans (List.getElem?_eq_getElem (by omega))⟩
  obtain ⟨b, hb⟩ : ∃ b, grants[f n]? = some b :=
    ⟨_, (hf n).symm.trans (List.getElem?_eq_getElem hlong)⟩
  have hwindow : ∀ i c, grants[f i]? = some c → t ≤ c ∧ c < t + per := by
    intro i c hc
    rw [← hf i] at hc
    simpa using (List.mem_filter.1 (List.mem_of_getElem? hc)).2
  have hapart : n + f 0 ≤ f n := by
    simpa using f.strictMono.add_le_nat n 0
  have hend : f n < grants.length := (List.getElem?_eq_some_iff.1 hb).1
  obtain ⟨c, hc⟩ : ∃ c, grants[f 0 + n]? = some c :=
    ⟨_, List.getElem?_eq_getElem (by omega)⟩
  have hfar : a + per ≤ c := hs (f 0) a c ha hc
  have hle : c ≤ b := by
    rcases Nat.eq_or_lt_of_le hapart with heq | hlt
    · rw [Nat.add_comm, heq, hb] at hc
      cases hc
      exact Nat.le_refl _
    · rw [List.pairwise_iff_getElem] at hsorted
      have hsc := hsorted (f 0 + n) (f n) (by omega) hend (by omega)
      rw [List.getElem?_eq_some_iff.1 hc |>.2, List.getElem?_eq_some_iff.1 hb |>.2] at hsc
      exact hsc
  have hfirst := (hwindow 0 a ha).1
  have hlast := (hwindow n b hb).2
  omega

theorem Span.second_pos : 0 < (Span.ofSeconds 1).toNanos := by decide

namespace Limiter

theorem new_eq_ok {rate : UInt32} {per : Span} (hr : 0 < rate) (hp : 0 < per.toNanos) :
    Limiter.new rate per = .ok ⟨rate.toNat, per.toNanos, [], hr, hp⟩ := by
  have hrate : 0 < rate.toNat := hr
  rw [Limiter.new, dif_pos hrate, dif_pos hp]

/-- A limiter of any rate and window can be made. At a gate with it, whoever calls, sleeps and
gives up when: any two grants that are `rate` apart are the window apart in time, so that no
half-open window holds more than `rate` of them, and the limiter holds every grant that is younger
than the window, in order. Everything that happens keeps this. -/
theorem window_respected (rate : UInt32) (per : Span) (hr : 0 < rate) (hp : 0 < per.toNanos) :
    ∃ l, Limiter.new rate per = .ok l ∧
      (∀ {α : Type} [DecidableEq α] (start now : Nat) (grants : List Nat) (g : Gate α),
        (Gate.new l).Course start grants now g →
          grants.Pairwise (· ≤ ·) ∧
          (∀ i a b, grants[i]? = some a → grants[i + rate.toNat]? = some b →
            a + per.toNanos ≤ b) ∧
          (∀ t, (grants.filter fun a => t ≤ a ∧ a < t + per.toNanos).length ≤ rate.toNat) ∧
          g.limiter.recent.Pairwise (· ≤ ·) ∧ g.limiter.recent.length ≤ rate.toNat ∧
          ∃ old, grants = old ++ g.limiter.recent ∧ ∀ a ∈ old, a + per.toNanos ≤ now) ∧
      ∀ {α : Type} [DecidableEq α] (now : Nat) (grants new : List Nat) (g g' : Gate α),
        g.limiter.Accounts grants now → g.Goes now new g' →
          g'.limiter.Accounts (grants ++ new) now := by
  refine ⟨_, new_eq_ok hr hp, ?_, fun _ _ _ _ _ ha hg => hg.accounts ha⟩
  intro α _ start now grants g hcourse
  have ha := hcourse.accounts rfl
  obtain ⟨hrate, hper⟩ := hcourse.bounds
  have hspaced := ha.spaced
  have hfew := ha.few
  have hkept := ha.kept
  rw [hrate, hper] at hspaced
  rw [hrate] at hfew
  rw [hper] at hkept
  exact ⟨ha.sorted, hspaced, hspaced.length_filter_le ha.sorted, ha.recent_sorted, hfew, hkept⟩

/-- Two grants a second: the third caller wakes too early, sleeps again, and has its grant a
second after the first. -/
theorem window_respected_early_waking :
    (0 : UInt32) < 2 ∧ 0 < (Span.ofSeconds 1).toNanos ∧
      ∃ l g, Limiter.new 2 (Span.ofSeconds 1) = .ok l ∧
        (Gate.new l : Gate Nat).Course 0 [0, 400000000, 1000000000] 1000000000 g ∧
        ∀ t, ([0, 400000000, 1000000000].filter fun a => t ≤ a ∧ a < t + 1000000000).length ≤ 2 := by
  have hr : (0 : UInt32) < 2 := by decide
  have hp := Span.second_pos
  obtain ⟨l, hl, hcourse, -⟩ := window_respected 2 (Span.ofSeconds 1) hr hp
  rw [new_eq_ok hr hp] at hl
  cases hl
  have first : (Gate.new ⟨2, 1000000000, [], by decide, by decide⟩ : Gate Nat).Course 0 [] 0 _ :=
    .refl
  have two := ((((first.goes (.joins 1)).goes (.passes 1 rfl)).goes (.joins 2)).goes
    (.joins 3)).later (show 0 ≤ 400000000 by decide) |>.goes (.passes 2 rfl)
  have waits := ((two.goes (.sleeps 3 rfl rfl)).later (show 400000000 ≤ 700000000 by decide)).goes
    (.sleeps 3 rfl rfl)
  have three := (waits.later (show 700000000 ≤ 1000000000 by decide)).goes (.passes 3 rfl)
  exact ⟨hr, hp, _, _, new_eq_ok hr hp, three, (hcourse _ _ _ _ three).2.2.1⟩

end Limiter
end MarketFeed
