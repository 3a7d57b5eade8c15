import MarketFeed.Store.Memory
import Mathlib.Data.List.Perm.Basic
import Mathlib.Data.List.Dedup
import Mathlib.Data.List.Nodup

/-!
# MarketFeed.Proofs.Store.Upsert

Rows in the order of their keys, of which a new one replaces the one with its key.

* `RowKey.order_eq`, `RowKey.order_trans` — the order of keys is one.
* `InOrder` — each key has one row at most.
* `InOrder.upsert_perm` — the new row, and all rows with other keys.
* `stored?`, `InOrder.stored_upsertAll` — under each key, the row that was written last.
* `InOrder.filter_eq_singleton` — and it is the only one.
* `length_upsertAll_nil` — rows that are put into an empty table leave one row for each key.
-/

namespace MarketFeed

/-! ## The order of keys -/

instance : Std.TransCmp Instant.order :=
  inferInstanceAs (Std.TransCmp (compareLex (compareOn Instant.day)
    (compareLex (compareOn Instant.second) (compareOn Instant.nanos))))

instance : Std.TransCmp fun a b : RowKey => a.time.order b.time where
  eq_swap := Std.OrientedCmp.eq_swap
  isLE_trans := Std.TransCmp.isLE_trans

instance : Std.TransCmp RowKey.order :=
  inferInstanceAs (Std.TransCmp (compareLex (compareOn RowKey.exchange)
    (compareLex (compareOn RowKey.symbol) (compareLex (compareOn RowKey.kind)
      (fun a b => a.time.order b.time)))))

theorem Instant.order_eq {a b : Instant} (h : a.order b = .eq) : a = b := by
  simp only [order, Ordering.then_eq_eq, Std.LawfulEqCmp.compare_eq_iff_eq] at h
  obtain ⟨day, second, nanos⟩ := a
  obtain ⟨day', second', nanos'⟩ := b
  obtain ⟨rfl, rfl, rfl⟩ := h
  rfl

namespace RowKey

variable {a b c : RowKey}

theorem order_eq : a.order b = .eq ↔ a = b := by
  constructor
  · intro h
    simp only [order, Ordering.then_eq_eq, Std.LawfulEqCmp.compare_eq_iff_eq] at h
    obtain ⟨exchange, symbol, kind, time⟩ := a
    obtain ⟨exchange', symbol', kind', time'⟩ := b
    obtain ⟨rfl, rfl, rfl, htime⟩ := h
    obtain rfl := Instant.order_eq htime
    rfl
  · rintro rfl
    exact Std.ReflCmp.compare_self

theorem ne_of_order (h : a.order b = .lt) : a ≠ b := by
  rintro rfl
  rw [order_eq.2 rfl] at h
  cases h

theorem order_trans (h : a.order b = .lt) (h' : b.order c = .lt) : a.order c = .lt :=
  Std.TransCmp.lt_trans h h'

theorem order_of_gt (h : a.order b = .gt) : b.order a = .lt := Std.OrientedCmp.lt_of_gt h

end RowKey

namespace Store

section

variable {α : Type} {key : α → RowKey} {row : α} {l rows : List α}

/-- In the strict order of the keys, so that each key has one row at most. -/
def InOrder (key : α → RowKey) (l : List α) : Prop :=
  l.Pairwise fun a b => (key a).order (key b) = .lt

theorem InOrder.ne (h : InOrder key l) : l.Pairwise fun a b => key a ≠ key b :=
  h.imp RowKey.ne_of_order

/-- A new row stands beside the rows with other keys. -/
theorem InOrder.upsert_perm (h : InOrder key l) (row : α) :
    (upsert key row l).Perm (row :: l.filter fun a => key a ≠ key row) := by
  induction l with
  | nil => exact .refl _
  | cons a l ih =>
    obtain ⟨hfirst, hrest⟩ := List.pairwise_cons.1 h
    have hkeep {b : RowKey} (hb : ∀ c ∈ l, b.order (key c) = .lt) :
        (l.filter fun c => key c ≠ b) = l :=
      List.filter_eq_self.2 fun c hc => decide_eq_true (RowKey.ne_of_order (hb c hc)).symm
    cases horder : (key row).order (key a) with
    | lt =>
      have hall : ∀ c ∈ l, (key row).order (key c) = .lt :=
        fun c hc => RowKey.order_trans horder (hfirst c hc)
      simp only [upsert, horder]
      rw [List.filter_cons_of_pos (by simpa using (RowKey.ne_of_order horder).symm), hkeep hall]
    | eq =>
      have hsame := RowKey.order_eq.1 horder
      simp only [upsert, horder]
      rw [List.filter_cons_of_neg (by simp [hsame]), hkeep (hsame ▸ hfirst)]
    | gt =>
      have hne := RowKey.ne_of_order (RowKey.order_of_gt horder)
      simp only [upsert, horder]
      rw [List.filter_cons_of_pos (by simpa using hne)]
      exact ((ih hrest).cons a).trans (.swap row a _)

theorem InOrder.upsert (h : InOrder key l) (row : α) : InOrder key (upsert key row l) := by
  induction l with
  | nil => exact List.pairwise_singleton _ _
  | cons a l ih =>
    obtain ⟨hfirst, hrest⟩ := List.pairwise_cons.1 h
    cases horder : (key row).order (key a) with
    | lt =>
      simp only [Store.upsert, horder]
      refine List.pairwise_cons.2 ⟨fun b hb => ?_, h⟩
      rcases List.mem_cons.1 hb with rfl | hb
      · exact horder
      · exact RowKey.order_trans horder (hfirst b hb)
    | eq =>
      have hsame := RowKey.order_eq.1 horder
      simp only [Store.upsert, horder]
      exact List.pairwise_cons.2 ⟨hsame ▸ hfirst, hrest⟩
    | gt =>
      simp only [Store.upsert, horder]
      refine List.pairwise_cons.2 ⟨fun b hb => ?_, ih hrest⟩
      rcases List.mem_cons.1 ((InOrder.upsert_perm hrest row).mem_iff.1 hb) with rfl | hb
      · exact RowKey.order_of_gt horder
      · exact hfirst b (List.mem_filter.1 hb).1

theorem upsertAll_cons (row : α) (rows l : List α) :
    upsertAll key (row :: rows) l = upsertAll key rows (upsert key row l) := rfl

theorem upsertAll_append (rows rows' l : List α) :
    upsertAll key (rows ++ rows') l = upsertAll key rows' (upsertAll key rows l) :=
  List.foldl_append

theorem InOrder.upsertAll (h : InOrder key l) (rows : List α) :
    InOrder key (upsertAll key rows l) := by
  induction rows generalizing l with
  | nil => exact h
  | cons row rows ih => exact ih (h.upsert row)

/-! ## The row under a key -/

/-- The row with a key. -/
def stored? (key : α → RowKey) (l : List α) (k : RowKey) : Option α := l.find? fun a => key a = k

theorem InOrder.stored_iff (h : InOrder key l) {k : RowKey} {a : α} :
    stored? key l k = some a ↔ a ∈ l ∧ key a = k := by
  constructor
  · intro hfound
    exact ⟨List.mem_of_find?_eq_some hfound, by simpa using List.find?_some hfound⟩
  · rintro ⟨ha, rfl⟩
    cases hfound : stored? key l (key a) with
    | none => exact absurd (List.find?_eq_none.1 hfound a ha) (by simp)
    | some b =>
      have hkey : key b = key a := by simpa using List.find?_some hfound
      have hnodup : (l.map key).Nodup := List.pairwise_map.2 h.ne
      rw [List.inj_on_of_nodup_map hnodup (List.mem_of_find?_eq_some hfound) ha hkey]

theorem InOrder.stored_upsert (h : InOrder key l) (row : α) (k : RowKey) :
    stored? key (Store.upsert key row l) k = if key row = k then some row else stored? key l k := by
  refine Option.ext fun a => ?_
  rw [(h.upsert row).stored_iff, (h.upsert_perm row).mem_iff, List.mem_cons, List.mem_filter,
    decide_eq_true_eq]
  split
  · rename_i hk
    constructor
    · rintro ⟨rfl | ⟨-, hne⟩, hkey⟩
      · rfl
      · exact absurd (hkey.trans hk.symm) hne
    · rintro ⟨⟩
      exact ⟨.inl rfl, hk⟩
  · rename_i hk
    rw [h.stored_iff]
    constructor
    · rintro ⟨rfl | ⟨ha, -⟩, hkey⟩
      · exact absurd hkey hk
      · exact ⟨ha, hkey⟩
    · rintro ⟨ha, hkey⟩
      exact ⟨.inr ⟨ha, fun heq => hk (heq.symm.trans hkey)⟩, hkey⟩

/-- Under each key stands the row that was written last. -/
theorem InOrder.stored_upsertAll (h : InOrder key l) (rows : List α) (k : RowKey) :
    stored? key (Store.upsertAll key rows l) k =
      (stored? key rows.reverse k).or (stored? key l k) := by
  induction rows generalizing l with
  | nil => rfl
  | cons row rows ih =>
    rw [upsertAll_cons, ih (h.upsert row), h.stored_upsert, List.reverse_cons]
    simp only [stored?, List.find?_append, List.find?_singleton, decide_eq_true_eq, Option.or_assoc]
    congr 1
    split <;> rfl

theorem InOrder.mem_upsertAll (h : InOrder key l) {a : α} (ha : a ∈ Store.upsertAll key rows l) :
    a ∈ rows ∨ a ∈ l := by
  induction rows generalizing l with
  | nil => exact .inr ha
  | cons row rows ih =>
    rcases ih (h.upsert row) ha with hrows | hl
    · exact .inl (List.mem_cons_of_mem row hrows)
    · rcases List.mem_cons.1 ((h.upsert_perm row).mem_iff.1 hl) with rfl | hkept
      · exact .inl List.mem_cons_self
      · exact .inr (List.mem_filter.1 hkept).1

/-- Rows put into an empty table leave one row for each key of theirs. -/
theorem length_upsertAll_nil (key : α → RowKey) (rows : List α) :
    (Store.upsertAll key rows []).length = (rows.map key).dedup.length := by
  have horder : InOrder key (Store.upsertAll key rows []) := InOrder.upsertAll .nil rows
  have hnodup : ((Store.upsertAll key rows []).map key).Nodup := List.pairwise_map.2 horder.ne
  have hkeys (k : RowKey) :
      k ∈ (Store.upsertAll key rows []).map key ↔ k ∈ rows.map key := by
    have hstored : (stored? key (Store.upsertAll key rows []) k).isSome ↔
        (stored? key rows.reverse k).isSome := by
      rw [InOrder.stored_upsertAll .nil]
      simp [stored?]
    simpa [stored?, List.find?_isSome] using hstored
  rw [← List.length_map key]
  exact ((List.perm_ext_iff_of_nodup hnodup (List.nodup_dedup _)).2 fun k => by
    rw [hkeys, List.mem_dedup]).length_eq

/-- Of the rows with one key there is one. -/
theorem InOrder.filter_eq_singleton (h : InOrder key l) {a : α} (ha : a ∈ l) {p : α → Bool}
    (hp : ∀ b ∈ l, p b = true ↔ key b = key a) : l.filter p = [a] := by
  have hkeys : ∀ b ∈ l.filter p, key b = key a :=
    fun b hb => (hp b (List.mem_filter.1 hb).1).1 (List.mem_filter.1 hb).2
  have hmem : a ∈ l.filter p := List.mem_filter.2 ⟨ha, (hp a ha).2 rfl⟩
  have hne : (l.filter p).Pairwise fun b c => key b ≠ key c := h.ne.filter p
  cases hl : l.filter p with
  | nil => rw [hl] at hmem; cases hmem
  | cons b rest =>
    cases rest with
    | nil =>
      rw [hl] at hmem
      rw [List.mem_singleton.1 hmem]
    | cons c rest =>
      rw [hl] at hkeys hne
      have hbc := (List.pairwise_cons.1 hne).1 c List.mem_cons_self
      exact absurd ((hkeys b (by simp)).trans (hkeys c (by simp)).symm) hbc

end

end Store
end MarketFeed
