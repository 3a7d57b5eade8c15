import MarketFeed.Binance.Feed
import MarketFeed.Binance.Trade

/-!
# MarketFeed.Proofs.Binance.Offer

The trades that a feed offers, without regard to how they are read.

* `Frames.trades` — the trades among the first items of a connection. `Frames.Sound`,
  `Frames.EndsAt` — none of these items is bad, and the connection is over behind them.
* `Opening.Part`, `Opening.Over`, `Opening.All` — trades that an opening offers up to some item, up
  to its end, and at most.
* `AllOver`, `Told`, `Whole` — the same of openings one after another: all of them over, all but
  the last over, and each with all of its trades.
-/

namespace MarketFeed
namespace Binance

namespace FeedItem

/-- The item ends its connection: a failure, or a frame that cannot be read. -/
def isBad : FeedItem → Bool
  | .text frame =>
    match Trade.ofFrame frame with
    | .ok _ => false
    | .error _ => true
  | .failure => true
  | .pause _ => false

def trade? : FeedItem → Option Trade
  | .text frame =>
    match Trade.ofFrame frame with
    | .ok t => t
    | .error _ => none
  | .failure => none
  | .pause _ => none

end FeedItem

/-! ## One connection -/

namespace Frames

/-- The first `n` items are there, and none of them is bad. -/
def Sound (f : Frames) (n : Nat) : Prop := ∀ i < n, ∃ x, f.item i = some x ∧ x.isBad = false

/-- The trades among the first `n` items. -/
def trades (f : Frames) (n : Nat) : List Trade :=
  (List.range n).filterMap fun i => (f.item i).bind FeedItem.trade?

/-- A bad item is next, or the end. -/
def IsOver (f : Frames) (next : Nat) : Prop :=
  (∃ x, f.item next = some x ∧ x.isBad = true) ∨ f.item next = none ∧ f.closes = true

/-- The connection is over behind its first `n` items. -/
def EndsAt (f : Frames) (n : Nat) : Prop := f.Sound n ∧ f.IsOver n

variable {f : Frames} {m n : Nat} {x : FeedItem}

theorem sound_zero (f : Frames) : f.Sound 0 := by
  intro i hi
  exact absurd hi (Nat.not_lt_zero i)

theorem Sound.succ (h : f.Sound n) (hx : f.item n = some x) (hgood : x.isBad = false) :
    f.Sound (n + 1) := by
  intro i hi
  rcases Nat.lt_succ_iff_lt_or_eq.1 hi with hi | rfl
  · exact h i hi
  · exact ⟨x, hx, hgood⟩

theorem trades_zero (f : Frames) : f.trades 0 = [] := rfl

theorem trades_succ (hx : f.item n = some x) :
    f.trades (n + 1) = f.trades n ++ x.trade?.toList := by
  have hlast : [n].filterMap (fun i => (f.item i).bind FeedItem.trade?) = x.trade?.toList := by
    cases ht : x.trade? <;> simp [hx, ht]
  rw [trades, List.range_succ, List.filterMap_append, hlast]
  rfl

theorem trades_skip (hx : f.item n = some x) (htrade : x.trade? = none) :
    f.trades (n + 1) = f.trades n := by
  rw [trades_succ hx, htrade]
  exact List.append_nil _

theorem trades_send {trade : Trade} (hx : f.item n = some x) (htrade : x.trade? = some trade) :
    f.trades (n + 1) = f.trades n ++ [trade] := by
  rw [trades_succ hx, htrade]
  rfl

theorem trades_prefix (f : Frames) (h : m ≤ n) : f.trades m <+: f.trades n := by
  obtain ⟨d, rfl⟩ := Nat.exists_eq_add_of_le h
  rw [trades, trades, List.range_add, List.filterMap_append]
  exact List.prefix_append _ _

theorem length_trades_le (f : Frames) (n : Nat) : (f.trades n).length ≤ n := by
  have h := List.length_filterMap_le (fun i => (f.item i).bind FeedItem.trade?) (List.range n)
  rwa [List.length_range] at h

/-- No sound part of a connection goes beyond its end. -/
theorem EndsAt.sound_le (h : f.EndsAt n) (hm : f.Sound m) : m ≤ n := by
  rcases Nat.lt_or_ge n m with hlt | hle
  · obtain ⟨x, hx, hgood⟩ := hm n hlt
    rcases h.2 with ⟨y, hy, hbad⟩ | ⟨hnone, -⟩
    · rw [hx] at hy
      cases hy
      rw [hgood] at hbad
      cases hbad
    · rw [hx] at hnone
      cases hnone
  · exact hle

end Frames

/-! ## Openings -/

namespace Opening

/-- The trades that an opening offers up to some item. One that fails offers none. -/
def Part (o : Opening) (l : List Trade) : Prop :=
  match o.frames with
  | none => l = []
  | some f => ∃ n, f.Sound n ∧ l = f.trades n

/-- The trades that an opening offers up to its end, which it has. -/
def Over (o : Opening) (l : List Trade) : Prop :=
  match o.frames with
  | none => l = []
  | some f => ∃ n, f.EndsAt n ∧ l = f.trades n

/-- All trades that an opening offers, be it over or silent. -/
def All (o : Opening) (l : List Trade) : Prop := o.Part l ∧ ∀ l', o.Part l' → l' <+: l

variable {o : Opening} {l : List Trade}

theorem part_of_none (hf : o.frames = none) : o.Part l ↔ l = [] := by
  rw [Part, hf]

theorem part_of_some {f : Frames} (hf : o.frames = some f) :
    o.Part l ↔ ∃ n, f.Sound n ∧ l = f.trades n := by
  rw [Part, hf]

theorem over_of_none (hf : o.frames = none) : o.Over l ↔ l = [] := by
  rw [Over, hf]

theorem over_of_some {f : Frames} (hf : o.frames = some f) :
    o.Over l ↔ ∃ n, f.EndsAt n ∧ l = f.trades n := by
  rw [Over, hf]

theorem Over.part (h : o.Over l) : o.Part l := by
  cases hf : o.frames with
  | none => exact (part_of_none hf).2 ((over_of_none hf).1 h)
  | some f =>
    obtain ⟨n, hend, hl⟩ := (over_of_some hf).1 h
    exact (part_of_some hf).2 ⟨n, hend.1, hl⟩

theorem Over.all (h : o.Over l) : o.All l := by
  refine ⟨h.part, ?_⟩
  intro l' hpart
  cases hf : o.frames with
  | none =>
    obtain rfl := (over_of_none hf).1 h
    obtain rfl := (part_of_none hf).1 hpart
    exact List.prefix_refl _
  | some f =>
    obtain ⟨n, hend, rfl⟩ := (over_of_some hf).1 h
    obtain ⟨m, hsound, rfl⟩ := (part_of_some hf).1 hpart
    exact f.trades_prefix (hend.sound_le hsound)

end Opening

/-- The trades of openings that are over, one after another. -/
inductive AllOver : List Opening → List Trade → Prop where
  | nil : AllOver [] []
  | snoc {os : List Opening} {o : Opening} {l l' : List Trade} (h : AllOver os l)
      (ho : o.Over l') : AllOver (os ++ [o]) (l ++ l')

/-- Trades of openings one after another, the last of which need not be over. -/
inductive Told : List Opening → List Trade → Prop where
  | ended {os : List Opening} {l : List Trade} (h : AllOver os l) : Told os l
  | within {os : List Opening} {o : Opening} {l l' : List Trade} (h : AllOver os l)
      (ho : o.Part l') : Told (os ++ [o]) (l ++ l')

/-- All trades of openings one after another. -/
inductive Whole : List Opening → List Trade → Prop where
  | nil : Whole [] []
  | snoc {os : List Opening} {o : Opening} {l l' : List Trade} (h : Whole os l)
      (ho : o.All l') : Whole (os ++ [o]) (l ++ l')

theorem AllOver.whole {os : List Opening} {l : List Trade} (h : AllOver os l) : Whole os l := by
  induction h with
  | nil => exact .nil
  | snoc _ ho ih => exact ih.snoc ho.all

end Binance
end MarketFeed
