import Mathlib.Data.List.Dedup
import Mathlib.Data.List.Flatten
import MarketFeed.Proofs.Store.Sinks

/-!
# MarketFeed.Proofs.Store.LastWrite

Of the rows with one key, the one that was written last is kept in memory.

* `Latest`, `latest_upsertAll` — a table that holds these rows, in the order of their keys.
* `Latest.unique` — the order of rows with the same key tells the whole table.
* `Memory.bars_writeAll`, `Memory.ticks_writeAll` — batches write their rows one after another.
* `memory_keeps_latest` — so it does not matter how rows are cut into batches, in which order
  batches without a common key are written, and how often the last one is written again.
-/

namespace MarketFeed
namespace Store

/-! ## The rows that were written last -/

/-- A table holds, in the strict order of the keys, one row for each key that was written: the last
one with this key. -/
structure Latest {α : Type} (key : α → RowKey) (rows table : List α) : Prop where
  inOrder : InOrder key table
  keys : (table.map key).Perm (rows.map key).dedup
  mem_iff : ∀ a, a ∈ table ↔ (rows.filter fun b => key b = key a).getLast? = some a

section

variable {α : Type} {key : α → RowKey} {rows rows' table table' : List α}

theorem inOrder_nil (key : α → RowKey) : InOrder key [] := List.Pairwise.nil

/-- Two tables in the order of their keys are the same if they hold the same rows. -/
theorem InOrder.ext (h : InOrder key table) (h' : InOrder key table')
    (hmem : ∀ a, a ∈ table ↔ a ∈ table') : table = table' := by
  have hnodup {l : List α} (h : InOrder key l) : l.Nodup :=
    h.ne.imp fun hne heq => hne (congrArg key heq)
  refine List.Perm.eq_of_pairwise (fun a b _ _ hab hba => ?_) h h'
    ((List.perm_ext_iff_of_nodup (hnodup h) (hnodup h')).2 hmem)
  exact absurd rfl (RowKey.ne_of_order (RowKey.order_trans hab hba))

theorem stored_reverse (rows : List α) (k : RowKey) :
    stored? key rows.reverse k = (rows.filter fun b => key b = k).getLast? :=
  List.getLast?_filter.symm

theorem latest_upsertAll (key : α → RowKey) (rows : List α) :
    Latest key rows (upsertAll key rows []) := by
  have hinOrder := (inOrder_nil key).upsertAll rows
  have hstored (k : RowKey) : stored? key (upsertAll key rows []) k =
      (rows.filter fun b => key b = k).getLast? := by
    rw [(inOrder_nil key).stored_upsertAll, stored_reverse]
    exact Option.or_none
  have hmem (a : α) : a ∈ upsertAll key rows [] ↔
      (rows.filter fun b => key b = key a).getLast? = some a := by
    rw [← hstored, hinOrder.stored_iff]
    exact (and_iff_left rfl).symm
  refine ⟨hinOrder, ?_, hmem⟩
  have hkeys : ((upsertAll key rows []).map key).Nodup := List.pairwise_map.2 hinOrder.ne
  refine (List.perm_ext_iff_of_nodup hkeys (List.nodup_dedup _)).2 fun k => ?_
  rw [List.mem_dedup, List.mem_map, List.mem_map]
  constructor
  · rintro ⟨a, ha, rfl⟩
    exact ⟨a, (List.mem_filter.1 (List.mem_of_getLast? ((hmem a).1 ha))).1, rfl⟩
  · rintro ⟨b, hb, rfl⟩
    have hne : (rows.filter fun c => key c = key b) ≠ [] :=
      List.ne_nil_of_mem (List.mem_filter.2 ⟨hb, decide_eq_true rfl⟩)
    have hlast := List.getLast?_eq_some_getLast hne
    have hkey : key ((rows.filter fun c => key c = key b).getLast hne) = key b := by
      simpa using (List.mem_filter.1 (List.getLast_mem hne)).2
    refine ⟨_, (hmem _).2 ?_, hkey⟩
    rw [hkey]
    exact hlast

/-- Where the last rows with each key are the same, the same is kept. -/
theorem Latest.unique (h : Latest key rows table) (h' : Latest key rows' table')
    (hsame : ∀ k, (rows.filter fun b => key b = k).getLast? =
      (rows'.filter fun b => key b = k).getLast?) : table = table' := by
  refine h.inOrder.ext h'.inOrder fun a => ?_
  rw [h.mem_iff, h'.mem_iff, hsame]

end

/-! ## Batches -/

namespace Batch

def barRows : Batch → List Bar
  | .bars rows => rows
  | .ticks _ => []

def tickRows : Batch → List Tick
  | .bars _ => []
  | .ticks rows => rows

/-- The number of rows. -/
def size : Batch → Nat
  | .bars rows => rows.length
  | .ticks rows => rows.length

/-- No row of one batch has the key of a row of the other. -/
def Apart (b b' : Batch) : Prop :=
  (∀ r ∈ b.barRows, ∀ r' ∈ b'.barRows, r.key ≠ r'.key) ∧
    ∀ r ∈ b.tickRows, ∀ r' ∈ b'.tickRows, r.key ≠ r'.key

end Batch

namespace Memory

theorem writeAll_cons (m : Memory) (b : Batch) (rest : List Batch) :
    m.writeAll (b :: rest) =
      ((m.write b).1 :: ((m.write b).2.writeAll rest).1, ((m.write b).2.writeAll rest).2) := rfl

theorem counts_writeAll (m : Memory) (batches : List Batch) :
    (m.writeAll batches).1 = batches.map Batch.size := by
  induction batches generalizing m with
  | nil => rfl
  | cons b rest ih =>
    rw [writeAll_cons, ih, List.map_cons]
    cases b <;> rfl

theorem bars_writeAll (m : Memory) (batches : List Batch) :
    (m.writeAll batches).2.bars = upsertAll Bar.key (batches.flatMap Batch.barRows) m.bars := by
  induction batches generalizing m with
  | nil => rfl
  | cons b rest ih =>
    rw [writeAll_cons, ih, List.flatMap_cons, upsertAll_append]
    cases b <;> rfl

theorem ticks_writeAll (m : Memory) (batches : List Batch) :
    (m.writeAll batches).2.ticks = upsertAll Tick.key (batches.flatMap Batch.tickRows) m.ticks := by
  induction batches generalizing m with
  | nil => rfl
  | cons b rest ih =>
    rw [writeAll_cons, ih, List.flatMap_cons, upsertAll_append]
    cases b <;> rfl

/-- What is kept of some batches. -/
def keeping (batches : List Batch) : Memory := (empty.writeAll batches).2

theorem latest_bars (batches : List Batch) :
    Latest Bar.key (batches.flatMap Batch.barRows) (keeping batches).bars := by
  rw [keeping, bars_writeAll]
  exact latest_upsertAll Bar.key _

theorem latest_ticks (batches : List Batch) :
    Latest Tick.key (batches.flatMap Batch.tickRows) (keeping batches).ticks := by
  rw [keeping, ticks_writeAll]
  exact latest_upsertAll Tick.key _

theorem keeping_congr {batches batches' : List Batch}
    (hbars : ∀ k, ((batches.flatMap Batch.barRows).filter fun b => b.key = k).getLast? =
      ((batches'.flatMap Batch.barRows).filter fun b => b.key = k).getLast?)
    (hticks : ∀ k, ((batches.flatMap Batch.tickRows).filter fun t => t.key = k).getLast? =
      ((batches'.flatMap Batch.tickRows).filter fun t => t.key = k).getLast?) :
    keeping batches = keeping batches' := by
  have hb := (latest_bars batches).unique (latest_bars batches') hbars
  have ht := (latest_ticks batches).unique (latest_ticks batches') hticks
  cases hm : keeping batches
  cases hm' : keeping batches'
  rw [hm, hm'] at hb ht
  rw [Memory.mk.injEq]
  exact ⟨hb, ht⟩

theorem keeping_twice (batches : List Batch) (b : Batch) :
    keeping (batches ++ [b, b]) = keeping (batches ++ [b]) := by
  have htwice {α : Type} (rows new : List α) (p : α → Bool) :
      ((rows ++ (new ++ new)).filter p).getLast? = ((rows ++ new).filter p).getLast? := by
    simp only [List.filter_append, List.getLast?_append, Option.or_self]
  refine keeping_congr (fun k => ?_) fun k => ?_ <;>
  · simp only [List.flatMap_append, List.flatMap_cons, List.flatMap_nil, List.append_nil]
    exact htwice _ _ _

/-- Writing the last batch again and again changes nothing. -/
theorem keeping_replicate (batches : List Batch) (b : Batch) (n : Nat) :
    keeping (batches ++ b :: List.replicate n b) = keeping (batches ++ [b]) := by
  have hcons (n : Nat) : b :: List.replicate n b = List.replicate n b ++ [b] := by
    rw [← List.replicate_succ, List.replicate_succ']
  induction n with
  | zero => rfl
  | succ n ih =>
    have hsplit : batches ++ b :: List.replicate (n + 1) b =
        (batches ++ List.replicate n b) ++ [b, b] := by
      rw [hcons (n + 1), List.replicate_succ', List.append_assoc, List.append_assoc]
      rfl
    rw [hsplit, keeping_twice, List.append_assoc, ← hcons, ih]

end Memory

/-! ## Batches of several writers -/

theorem flatMap_filter_of_nil {α β : Type} {l : List α} {f : α → List β} {p : α → Bool}
    (h : ∀ x ∈ l, p x = false → f x = []) : (l.filter p).flatMap f = l.flatMap f := by
  induction l with
  | nil => rfl
  | cons x l ih =>
    have hrest := ih fun y hy => h y (List.mem_cons_of_mem x hy)
    rw [List.flatMap_cons]
    cases hp : p x with
    | true => rw [List.filter_cons_of_pos hp, List.flatMap_cons, hrest]
    | false =>
      rw [List.filter_cons_of_neg (by simp [hp]), hrest, h x List.mem_cons_self hp,
        List.nil_append]

section

variable {α : Type} {key : α → RowKey} {rows : Batch → List α} {calls calls' : List (Nat × Batch)}

theorem mem_of_lanes (hlanes : ∀ i, calls.filter (·.1 = i) = calls'.filter (·.1 = i))
    {x : Nat × Batch} (hx : x ∈ calls') : x ∈ calls := by
  have hmem : x ∈ calls'.filter (·.1 = x.1) := List.mem_filter.2 ⟨hx, decide_eq_true rfl⟩
  rw [← hlanes] at hmem
  exact (List.mem_filter.1 hmem).1

/-- Writers that have no keys in common leave the same rows with each key, however their calls are
interleaved. -/
theorem filter_of_lanes (hlanes : ∀ i, calls.filter (·.1 = i) = calls'.filter (·.1 = i))
    (hapart : ∀ x ∈ calls, ∀ y ∈ calls, x.1 ≠ y.1 → ∀ a ∈ rows x.2, ∀ b ∈ rows y.2, key a ≠ key b)
    (k : RowKey) :
    ((calls.map Prod.snd).flatMap rows).filter (fun a => key a = k) =
      ((calls'.map Prod.snd).flatMap rows).filter fun a => key a = k := by
  rw [List.flatMap_map, List.flatMap_map, List.filter_flatMap, List.filter_flatMap]
  by_cases hk : ∃ x ∈ calls, ∃ a ∈ rows x.2, key a = k
  · -- all rows with this key come from one writer
    obtain ⟨x, hx, a, ha, hka⟩ := hk
    have hother : ∀ y ∈ calls, decide (y.1 = x.1) = false →
        (rows y.2).filter (fun b => key b = k) = [] := by
      intro y hy hne
      refine List.filter_eq_nil_iff.2 fun b hb => ?_
      rw [decide_eq_true_eq, ← hka]
      exact (hapart x hx y hy (fun heq => of_decide_eq_false hne heq.symm) a ha b hb).symm
    rw [← flatMap_filter_of_nil hother, hlanes x.1,
      flatMap_filter_of_nil fun y hy => hother y (mem_of_lanes hlanes hy)]
  · have hnone : ∀ x ∈ calls, (rows x.2).filter (fun a => key a = k) = [] := by
      intro x hx
      refine List.filter_eq_nil_iff.2 fun a ha hka => ?_
      exact hk ⟨x, hx, a, ha, of_decide_eq_true hka⟩
    rw [List.flatMap_eq_nil_iff.2 hnone,
      List.flatMap_eq_nil_iff.2 fun x hx => hnone x (mem_of_lanes hlanes hx)]

end

/-- After any calls on an empty memory, each call has given the number of its rows, and each table
holds, strictly in the order of the keys, exactly one row for each key that was written, the last
one written with this key; bars leave the ticks alone, and ticks the bars. So what is kept depends
only on the order of rows with the same key: it is the same however the rows are cut into calls,
however the calls of writers without a common key are interleaved, and however often the last call
is made again. -/
theorem memory_keeps_latest :
    (∀ batches : List Batch,
      (Memory.empty.writeAll batches).1 = batches.map Batch.size ∧
      Latest Bar.key (batches.flatMap Batch.barRows) (Memory.keeping batches).bars ∧
      Latest Tick.key (batches.flatMap Batch.tickRows) (Memory.keeping batches).ticks) ∧
    (∀ (m : Memory) (bars : List Bar) (ticks : List Tick),
      (m.persistBars bars).2.ticks = m.ticks ∧ (m.persistTicks ticks).2.bars = m.bars) ∧
    (∀ batches batches' : List Batch,
      (∀ k, (batches.flatMap Batch.barRows).filter (fun b => b.key = k) =
          (batches'.flatMap Batch.barRows).filter fun b => b.key = k) →
      (∀ k, (batches.flatMap Batch.tickRows).filter (fun t => t.key = k) =
          (batches'.flatMap Batch.tickRows).filter fun t => t.key = k) →
      Memory.keeping batches = Memory.keeping batches') ∧
    (∀ batches batches' : List Batch,
      batches.flatMap Batch.barRows = batches'.flatMap Batch.barRows →
      batches.flatMap Batch.tickRows = batches'.flatMap Batch.tickRows →
      Memory.keeping batches = Memory.keeping batches') ∧
    (∀ calls calls' : List (Nat × Batch),
      (∀ writer, calls.filter (·.1 = writer) = calls'.filter (·.1 = writer)) →
      (∀ x ∈ calls, ∀ y ∈ calls, x.1 ≠ y.1 → x.2.Apart y.2) →
      Memory.keeping (calls.map Prod.snd) = Memory.keeping (calls'.map Prod.snd)) ∧
    ∀ (batches : List Batch) (b : Batch) (n : Nat),
      Memory.keeping (batches ++ b :: List.replicate n b) = Memory.keeping (batches ++ [b]) := by
  have hsame : ∀ batches batches' : List Batch,
      (∀ k, (batches.flatMap Batch.barRows).filter (fun b => b.key = k) =
          (batches'.flatMap Batch.barRows).filter fun b => b.key = k) →
      (∀ k, (batches.flatMap Batch.tickRows).filter (fun t => t.key = k) =
          (batches'.flatMap Batch.tickRows).filter fun t => t.key = k) →
      Memory.keeping batches = Memory.keeping batches' :=
    fun _ _ hbars hticks => Memory.keeping_congr (fun k => by rw [hbars]) fun k => by rw [hticks]
  refine ⟨fun batches => ⟨Memory.counts_writeAll _ batches, Memory.latest_bars batches,
    Memory.latest_ticks batches⟩, fun _ _ _ => ⟨rfl, rfl⟩, hsame, ?_, ?_, Memory.keeping_replicate⟩
  · intro batches batches' hbars hticks
    exact hsame batches batches' (fun k => by rw [hbars]) fun k => by rw [hticks]
  · intro calls calls' hlanes hapart
    exact hsame _ _
      (filter_of_lanes hlanes fun x hx y hy hne => (hapart x hx y hy hne).1)
      (filter_of_lanes hlanes fun x hx y hy hne => (hapart x hx y hy hne).2)

namespace Sample

/-- One writer has a bar that it writes again, the other one two ticks. -/
def inTurn : List (Nat × Batch) :=
  [(0, .bars [bar close 1]), (1, .ticks [tick "ETHUSDT" close, tick "BTCUSDT" close]),
    (0, .bars [bar laterClose 2]), (1, .ticks [tick "ETHUSDT" laterClose])]

/-- The second writer comes first. -/
def reordered : List (Nat × Batch) :=
  [(1, .ticks [tick "ETHUSDT" close, tick "BTCUSDT" close]),
    (1, .ticks [tick "ETHUSDT" laterClose]), (0, .bars [bar close 1]),
    (0, .bars [bar laterClose 2])]

end Sample

/-- Each writer keeps its order, and of each key the last row is left, whoever comes first. -/
theorem memory_keeps_latest_reordered :
    (∀ writer, Sample.inTurn.filter (·.1 = writer) = Sample.reordered.filter (·.1 = writer)) ∧
    (∀ x ∈ Sample.inTurn, ∀ y ∈ Sample.inTurn, x.1 ≠ y.1 → x.2.Apart y.2) ∧
    Memory.keeping (Sample.inTurn.map Prod.snd) =
      ⟨[Sample.bar Sample.laterClose 2],
        [Sample.tick "BTCUSDT" Sample.close, Sample.tick "ETHUSDT" Sample.laterClose]⟩ ∧
    Memory.keeping (Sample.inTurn.map Prod.snd) =
      Memory.keeping (Sample.reordered.map Prod.snd) := by
  have hlanes : ∀ writer,
      Sample.inTurn.filter (·.1 = writer) = Sample.reordered.filter (·.1 = writer) := by
    intro writer
    match writer with
    | 0 => rfl
    | 1 => rfl
    | n + 2 => rfl
  have hapart : ∀ x ∈ Sample.inTurn, ∀ y ∈ Sample.inTurn, x.1 ≠ y.1 → x.2.Apart y.2 := by
    simp [Sample.inTurn, Batch.Apart, Batch.barRows, Batch.tickRows]
  obtain ⟨-, -, -, -, hwriters, -⟩ := memory_keeps_latest
  exact ⟨hlanes, hapart, rfl, hwriters _ _ hlanes hapart⟩

end Store
end MarketFeed
