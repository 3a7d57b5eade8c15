import MarketFeed.Binance.Scenario
import MarketFeed.Proofs.Binance.Steps

/-!
# MarketFeed.Proofs.Binance.Trace

The trace of a stream: what was seen of it in a history.

* `received`, `accepted` — the trades that its consumer took, and those that entered its queue.
* `turns` — the feed was opened for it, and its connection was over, with the times of both.
* `Alternates` — the two follow each other, and no opening comes before the delay has passed.
* `Standing` — where a stream stands, by its turns and the trades that it sent.
* `Traced`, `traced_of_history` — every stream of every history keeps to this.
-/

namespace MarketFeed
namespace Binance

/-! ## What is seen of a stream -/

/-- The trades that the consumer of a stream takes in an incident. -/
def receivedAt (id : Nat) (x : Incident (Timed Connector) Event) : List Trade :=
  match x.event with
  | .receive i =>
    if i = id then
      match (x.before.world.receive i).1 with
      | .item trade => [trade]
      | .empty => []
      | .ended => []
    else []
  | _ => []

/-- The trades that enter the queue of a stream in an incident: those behind the ones that were
there before. -/
def acceptedAt (id : Nat) (x : Incident (Timed Connector) Event) : List Trade :=
  match x.before.world.stream? id, x.after.world.stream? id with
  | some s, some s' => s'.queue.items.drop s.queue.items.length
  | _, _ => []

/-- What a stream can come to: the feed is opened for it, or its connection is over. -/
inductive Turn where
  | opened (number : Nat)
  | ended
  deriving DecidableEq, Repr

/-- The turn of a stream that went on, with its time: it waits for the feed that it has opened, or
until it opens the feed again. -/
def turnOf (now : Nat) (c : Connector) (s : Stream) : Option (Nat × Turn) :=
  match s.stage with
  | .opening _ _ => some (now, .opened c.openings)
  | .pausing _ => some (now, .ended)
  | _ => none

/-- The turn of a stream in an incident. -/
def turnAt? (id : Nat) (x : Incident (Timed Connector) Event) : Option (Nat × Turn) :=
  match x.event with
  | .move (.stream i) =>
    if i = id then
      (x.after.world.stream? id).bind (turnOf x.before.now x.before.world)
    else none
  | _ => none

def received (id : Nat) (h : List (Incident (Timed Connector) Event)) : List Trade :=
  h.flatMap (receivedAt id)

def accepted (id : Nat) (h : List (Incident (Timed Connector) Event)) : List Trade :=
  h.flatMap (acceptedAt id)

def turns (id : Nat) (h : List (Incident (Timed Connector) Event)) : List (Nat × Turn) :=
  h.filterMap (turnAt? id)

def Turn.number? : Turn → Option Nat
  | .opened k => some k
  | .ended => none

/-- The numbers of the openings among some turns. -/
def numbers (ts : List (Nat × Turn)) : List Nat := ts.filterMap fun p => p.2.number?

/-- Openings and ends follow each other, and an opening comes `delay` after the end before it at
the earliest. -/
inductive Alternates (delay : Nat) : List (Nat × Turn) → Prop where
  | nil : Alternates delay []
  | opens {ts : List (Nat × Turn)} {time k : Nat} (h : Alternates delay ts)
      (hlast : ∀ p, ts.getLast? = some p → p.2 = .ended ∧ p.1 + delay ≤ time) :
      Alternates delay (ts ++ [(time, .opened k)])
  | ends {ts : List (Nat × Turn)} {start time k : Nat}
      (h : Alternates delay (ts ++ [(start, .opened k)])) (hle : start ≤ time) :
      Alternates delay (ts ++ [(start, .opened k)] ++ [(time, .ended)])

/-- What is before an opening: nothing, or an end that the delay has passed since. -/
theorem Alternates.before_opened {delay time k : Nat} {ts : List (Nat × Turn)}
    (h : Alternates delay (ts ++ [(time, Turn.opened k)])) :
    ∀ p, ts.getLast? = some p → p.2 = .ended ∧ p.1 + delay ≤ time := by
  generalize hl : ts ++ [(time, Turn.opened k)] = l at h
  cases h with
  | nil => exact absurd hl (List.append_ne_nil_of_right_ne_nil _ (List.cons_ne_nil _ _))
  | opens _ hlast =>
    obtain ⟨rfl, heq⟩ := List.append_inj' hl rfl
    cases heq
    exact hlast
  | ends =>
    obtain ⟨-, heq⟩ := List.append_inj' hl rfl
    cases heq

/-! ## Where a stream stands -/

/-- The openings of some turns, for a symbol. -/
def openingsOf (feed : Feed) (symbol : String) (ts : List (Nat × Turn)) : List Opening :=
  (numbers ts).map fun k => feed.opening k symbol

/-- Where a stream stands by the turns that it took and the trades that it sent. -/
inductive Standing (feed : Feed) (delay : Nat) (symbol : String) (now : Nat) :
    Stage → List (Nat × Turn) → List Trade → Prop where
  | pacing {ts : List (Nat × Turn)} {l : List Trade} (h : AllOver (openingsOf feed symbol ts) l)
      (hlast : ∀ p, ts.getLast? = some p → p.2 = .ended ∧ p.1 + delay ≤ now) :
      Standing feed delay symbol now .pacing ts l
  | opening {ts : List (Nat × Turn)} {l : List Trade} {due time k : Nat} {frames : Option Frames}
      (h : AllOver (openingsOf feed symbol ts) l) (htime : time ≤ now)
      (hframes : (feed.opening k symbol).frames = frames) :
      Standing feed delay symbol now (.opening due frames) (ts ++ [(time, .opened k)]) l
  | reading {ts : List (Nat × Turn)} {l : List Trade} {time k next resume : Nat} {f : Frames}
      (h : AllOver (openingsOf feed symbol ts) l) (htime : time ≤ now)
      (hframes : (feed.opening k symbol).frames = some f) (hsound : f.Sound next) :
      Standing feed delay symbol now (.reading f next resume) (ts ++ [(time, .opened k)])
        (l ++ f.trades next)
  /-- The trade of the last item read is not yet sent. -/
  | sending {ts : List (Nat × Turn)} {l : List Trade} {time k next : Nat} {f : Frames}
      {x : FeedItem} {trade : Trade} (h : AllOver (openingsOf feed symbol ts) l)
      (htime : time ≤ now) (hframes : (feed.opening k symbol).frames = some f)
      (hsound : f.Sound next) (hx : f.item next = some x) (hgood : x.isBad = false)
      (htrade : x.trade? = some trade) :
      Standing feed delay symbol now (.sending trade f (next + 1)) (ts ++ [(time, .opened k)])
        (l ++ f.trades next)
  | pausing {ts : List (Nat × Turn)} {l : List Trade} {time : Nat}
      (h : AllOver (openingsOf feed symbol ts) l) (htime : time ≤ now) :
      Standing feed delay symbol now (.pausing (time + delay)) (ts ++ [(time, .ended)]) l
  | ended {ts : List (Nat × Turn)} {l : List Trade} (h : Told (openingsOf feed symbol ts) l) :
      Standing feed delay symbol now .ended ts l

section Openings

variable {feed : Feed} {delay now now' k time : Nat} {symbol : String} {stage : Stage}
  {ts : List (Nat × Turn)} {l l' : List Trade}

theorem numbers_append (ts ts' : List (Nat × Turn)) :
    numbers (ts ++ ts') = numbers ts ++ numbers ts' := List.filterMap_append

theorem numbers_opened (ts : List (Nat × Turn)) (time k : Nat) :
    numbers (ts ++ [(time, Turn.opened k)]) = numbers ts ++ [k] := numbers_append _ _

theorem numbers_ended (ts : List (Nat × Turn)) (time : Nat) :
    numbers (ts ++ [(time, Turn.ended)]) = numbers ts := by
  rw [numbers_append]
  exact List.append_nil _

theorem openingsOf_opened : openingsOf feed symbol (ts ++ [(time, Turn.opened k)]) =
    openingsOf feed symbol ts ++ [feed.opening k symbol] := by
  rw [openingsOf, numbers_opened, List.map_append]
  rfl

theorem openingsOf_ended :
    openingsOf feed symbol (ts ++ [(time, Turn.ended)]) = openingsOf feed symbol ts := by
  rw [openingsOf, numbers_ended]
  rfl

/-- A part of the last opening. -/
theorem told_part {f : Frames} {n : Nat} (h : AllOver (openingsOf feed symbol ts) l)
    (hframes : (feed.opening k symbol).frames = some f) (hsound : f.Sound n) :
    Told (openingsOf feed symbol (ts ++ [(time, Turn.opened k)])) (l ++ f.trades n) := by
  rw [openingsOf_opened]
  exact .within h ((Opening.part_of_some hframes).2 ⟨n, hsound, rfl⟩)

/-- The whole of the last opening, which is over. -/
theorem allOver_ended {f : Frames} {n : Nat} (h : AllOver (openingsOf feed symbol ts) l)
    (hframes : (feed.opening k symbol).frames = some f) (hends : f.EndsAt n) :
    AllOver (openingsOf feed symbol (ts ++ [(time, Turn.opened k)])) (l ++ f.trades n) := by
  rw [openingsOf_opened]
  exact .snoc h ((Opening.over_of_some hframes).2 ⟨n, hends, rfl⟩)

/-- An opening that failed. -/
theorem allOver_failed (h : AllOver (openingsOf feed symbol ts) l)
    (hframes : (feed.opening k symbol).frames = none) :
    AllOver (openingsOf feed symbol (ts ++ [(time, Turn.opened k)])) l := by
  rw [openingsOf_opened, ← List.append_nil l]
  exact .snoc h ((Opening.over_of_none hframes).2 rfl)

namespace Standing

theorem later (h : Standing feed delay symbol now stage ts l) (hle : now ≤ now') :
    Standing feed delay symbol now' stage ts l := by
  cases h with
  | pacing h hlast =>
    exact .pacing h fun p hp => ⟨(hlast p hp).1, Nat.le_trans (hlast p hp).2 hle⟩
  | opening h htime hframes => exact .opening h (Nat.le_trans htime hle) hframes
  | reading h htime hframes hsound => exact .reading h (Nat.le_trans htime hle) hframes hsound
  | sending h htime hframes hsound hx hgood htrade =>
    exact .sending h (Nat.le_trans htime hle) hframes hsound hx hgood htrade
  | pausing h htime => exact .pausing h (Nat.le_trans htime hle)
  | ended h => exact .ended h

/-- The trades sent are those of all openings but the last, and a part of the last. -/
theorem told (h : Standing feed delay symbol now stage ts l) :
    Told (openingsOf feed symbol ts) l := by
  cases h with
  | pacing h _ => exact .ended h
  | opening h htime hframes =>
    rw [openingsOf_opened, ← List.append_nil l]
    refine .within h ?_
    cases hf : (feed.opening _ symbol).frames with
    | none => exact (Opening.part_of_none hf).2 rfl
    | some f => exact (Opening.part_of_some hf).2 ⟨0, f.sound_zero, rfl⟩
  | reading h htime hframes hsound => exact told_part h hframes hsound
  | sending h htime hframes hsound _ _ _ => exact told_part h hframes hsound
  | pausing h _ =>
    rw [openingsOf_ended]
    exact .ended h
  | ended h => exact h

/-- A stream that goes on stands where its next turn and the trade that it sends put it. -/
theorem goes {c c' : Connector} {s s' : Stream}
    (h : Standing feed delay s.symbol now s.stage ts l) (hg : StreamGoes now c s s' c')
    (hfeed : c.feed = feed) (hdelay : c.reconnectDelay = delay) :
    Standing feed delay s'.symbol now s'.stage (ts ++ (turnOf now c s').toList)
      (l ++ s'.queue.items.drop s.queue.items.length) := by
  subst hfeed
  subst hdelay
  cases hg with
  | opens hst hgate hs' =>
    rw [hst] at h
    subst hs'
    cases h with
    | pacing h hlast =>
      rw [List.drop_length, List.append_nil]
      exact .opening h (Nat.le_refl _) rfl
  | connects hst hdue hs' =>
    rw [hst] at h
    subst hs'
    cases h with
    | opening h htime hframes =>
      simp only [turnOf, Option.toList_none, List.append_nil, List.drop_length]
      simpa [Frames.trades_zero] using reading h htime hframes (Frames.sound_zero _)
  | fails hst hdue hs' =>
    rw [hst] at h
    subst hs'
    cases h with
    | opening h htime hframes =>
      rw [List.drop_length, List.append_nil]
      exact .pausing (allOver_failed h hframes) (Nat.le_refl _)
  | ends hst hdue hover hs' =>
    rw [hst] at h
    subst hs'
    cases h with
    | reading h htime hframes hsound =>
      rw [List.drop_length, List.append_nil]
      exact .pausing (allOver_ended h hframes ⟨hsound, hover⟩) (Nat.le_refl _)
  | skips hst hdue hx hgood htrade hs' =>
    rw [hst] at h
    subst hs'
    cases h with
    | reading h htime hframes hsound =>
      simp only [turnOf, Option.toList_none, List.append_nil, List.drop_length]
      rw [← Frames.trades_skip hx htrade]
      exact .reading h htime hframes (hsound.succ hx hgood)
  | reads hst hdue hx hgood htrade hs' =>
    rw [hst] at h
    subst hs'
    cases h with
    | reading h htime hframes hsound =>
      simp only [turnOf, Option.toList_none, List.append_nil, List.drop_length]
      exact .sending h htime hframes hsound hx hgood htrade
  | sends hst hopen hroom hs' =>
    rw [hst] at h
    subst hs'
    cases h with
    | sending h htime hframes hsound hx hgood htrade =>
      simp only [turnOf, Option.toList_none, List.append_nil, List.drop_left]
      rw [List.append_assoc, ← Frames.trades_send hx htrade]
      exact .reading h htime hframes (hsound.succ hx hgood)
  | resumes hst hdue hs' =>
    rw [hst] at h
    subst hs'
    cases h with
    | pausing h htime =>
      simp only [turnOf, Option.toList_none, List.append_nil, List.drop_length]
      refine .pacing (by rwa [openingsOf_ended]) ?_
      intro p hp
      rw [List.getLast?_concat] at hp
      cases hp
      exact ⟨rfl, hdue⟩

/-- The next turn of a stream follows the turns before. -/
theorem alternates {c c' : Connector} {s s' : Stream}
    (h : Standing feed delay s.symbol now s.stage ts l) (halt : Alternates delay ts)
    (hg : StreamGoes now c s s' c') : Alternates delay (ts ++ (turnOf now c s').toList) := by
  cases hg with
  | opens hst hgate hs' =>
    rw [hst] at h
    subst hs'
    cases h with
    | pacing h hlast => exact .opens halt hlast
  | fails hst hdue hs' =>
    rw [hst] at h
    subst hs'
    cases h with
    | opening h htime hframes => exact .ends halt htime
  | ends hst hdue hover hs' =>
    rw [hst] at h
    subst hs'
    cases h with
    | reading h htime hframes hsound => exact .ends halt htime
  | _ =>
    rename_i hs'
    subst hs'
    simpa [turnOf] using halt

end Standing
end Openings

end Binance
end MarketFeed
