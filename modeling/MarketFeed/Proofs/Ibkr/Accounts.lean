import MarketFeed.Proofs.Ibkr.Visits

/-!
# MarketFeed.Proofs.Ibkr.Accounts

What each session of a stream passes on to its consumer.

* `Over` — a session that has ended: one that was not connected, or was denied the market data,
  passed on nothing; one whose events ended, all tickers of its contract.
* `Underway` — the last session, by the stage of the stream. `Underway.goes`,
  `Underway.notices` — whatever the stream does keeps this.
* `Kept` — what the consumer took, what waits for it, and what entered the queue.
* `Account`, `accounts_of_history` — every stream of every lawful history keeps to this.
-/

namespace MarketFeed
namespace Ibkr

/-! ## Sessions -/

/-- A session that is about to cancel, or has, and whether its consumer has gone. -/
inductive Over (contract : Contract) (g : Gateway) : Bool → Visit → Prop where
  | unconnected {ds : List Deed} (h : Connecting false ds) :
      Over contract g false ⟨ds, none, [], []⟩
  | denied {ds : List Deed} {sub : Gateway.Subscription} (h : Connecting true ds) :
      Over contract g false
        ⟨ds ++ [Deed.calls (.marketData contract), .answered false], some sub, [], []⟩
  /-- The events have ended. -/
  | served {ds : List Deed} {sub : Gateway.Subscription} {b : Broadcast (List Ticker)}
      {lost : List Nat} {l : List Ticker} (h : Connecting true ds)
      (hb : g.events[sub.source]? = some b) (hend : b.ended = true)
      (hf : Forwarded contract b sub.position b.sent.length lost l) :
      Over contract g false
        ⟨ds ++ [Deed.calls (.marketData contract), .answered true], some sub, lost, l⟩
  /-- The consumer has gone; it may have done so within a batch. -/
  | left {ds : List Deed} {sub : Gateway.Subscription} {b : Broadcast (List Ticker)} {stop : Nat}
      {lost : List Nat} {l all : List Ticker} (h : Connecting true ds)
      (hb : g.events[sub.source]? = some b)
      (hf : Forwarded contract b sub.position stop lost all) (hpart : l <+: all) :
      Over contract g true
        ⟨ds ++ [Deed.calls (.marketData contract), .answered true], some sub, lost, l⟩

/-- A session after which there was another. -/
def Finished (contract : Contract) (g : Gateway) (w : Visit) : Prop :=
  ∃ v, Over contract g false v ∧ w = v.close contract false

/-- What is seen of the last session of a stream, by the stage of the stream. -/
inductive Underway (contract : Contract) (g : Gateway) : Stage → Visit → Prop where
  | connecting {d : Dial} {ds : List Deed} (h : Within contract (.connecting d) ds) :
      Underway contract g (.connecting d) ⟨ds, none, [], []⟩
  | pacing {ds : List Deed} {sub : Gateway.Subscription} {b : Broadcast (List Ticker)}
      (h : Connecting true ds) (hb : g.events[sub.source]? = some b)
      (hf : Forwarded contract b sub.position sub.position [] []) :
      Underway contract g (.pacing sub) ⟨ds, some sub, [], []⟩
  | reading {ds : List Deed} {sub : Gateway.Subscription} {b : Broadcast (List Ticker)}
      {stop : Nat} {lost : List Nat} {l : List Ticker} (h : Connecting true ds)
      (hb : g.events[sub.source]? = some b)
      (hf : Forwarded contract b sub.position stop lost l) :
      Underway contract g (.reading ⟨sub.source, stop⟩)
        ⟨ds ++ [Deed.calls (.marketData contract), .answered true], some sub, lost, l⟩
  /-- The last tickers of the last batch are not yet sent. -/
  | sending {ds : List Deed} {sub : Gateway.Subscription} {b : Broadcast (List Ticker)}
      {stop : Nat} {lost : List Nat} {l rest : List Ticker} (h : Connecting true ds)
      (hb : g.events[sub.source]? = some b)
      (hf : Forwarded contract b sub.position stop lost (l ++ rest)) :
      Underway contract g (.sending rest ⟨sub.source, stop⟩)
        ⟨ds ++ [Deed.calls (.marketData contract), .answered true], some sub, lost, l⟩
  | cancelling {gone : Bool} {v : Visit} (h : Over contract g gone v) :
      Underway contract g (.cancelling gone) v
  | pausing {due : Nat} {v : Visit} (h : Over contract g false v) :
      Underway contract g (.pausing due) (v.close contract false)
  | ended {gone : Bool} {v : Visit} (h : Over contract g gone v) :
      Underway contract g .ended (v.close contract gone)

/-- The sessions of a stream: those after which there was another, and the last. -/
inductive Sessions (contract : Contract) (g : Gateway) (stage : Stage) : List Visit → Prop where
  | mk {past : List Visit} {last : Visit} (hpast : ∀ v ∈ past, Finished contract g v)
      (hlast : Underway contract g stage last) : Sessions contract g stage (past ++ [last])

section Sessions

variable {contract : Contract} {g g' : Gateway} {gone : Bool} {stage : Stage} {v : Visit}
  {vs : List Visit} {c c' : Connector} {now : Nat} {s s' : Stream}

/-! ### More events -/

theorem Over.grows (h : Over contract g gone v) (hg : g.Grows g') : Over contract g' gone v := by
  cases h with
  | unconnected h => exact .unconnected h
  | denied h => exact .denied h
  | served h hb hend hf =>
    obtain ⟨b', hb', hgrows⟩ := hg _ _ hb
    obtain rfl := hgrows.eq_of_ended hend
    exact .served h hb' hend hf
  | left h hb hf hpart =>
    obtain ⟨b', hb', hgrows⟩ := hg _ _ hb
    exact .left h hb' (hf.grows hgrows) hpart

theorem Finished.grows (h : Finished contract g v) (hg : g.Grows g') : Finished contract g' v := by
  obtain ⟨w, hover, rfl⟩ := h
  exact ⟨w, hover.grows hg, rfl⟩

theorem Underway.grows (h : Underway contract g stage v) (hg : g.Grows g') :
    Underway contract g' stage v := by
  cases h with
  | connecting h => exact .connecting h
  | pacing h hb hf =>
    obtain ⟨b', hb', hgrows⟩ := hg _ _ hb
    exact .pacing h hb' (hf.grows hgrows)
  | reading h hb hf =>
    obtain ⟨b', hb', hgrows⟩ := hg _ _ hb
    exact .reading h hb' (hf.grows hgrows)
  | sending h hb hf =>
    obtain ⟨b', hb', hgrows⟩ := hg _ _ hb
    exact .sending h hb' (hf.grows hgrows)
  | cancelling h => exact .cancelling (h.grows hg)
  | pausing h => exact .pausing (h.grows hg)
  | ended h => exact .ended (h.grows hg)

theorem Sessions.grows (h : Sessions contract g stage vs) (hg : g.Grows g') :
    Sessions contract g' stage vs := by
  obtain ⟨hpast, hlast⟩ := h
  exact .mk (fun v hv => (hpast v hv).grows hg) (hlast.grows hg)

/-! ### What the stream does -/

theorem Visit.append_deeds (v : Visit) (ds : List Deed) :
    v.append ⟨ds, none, [], []⟩ = { v with deeds := v.deeds ++ ds } := by
  simp [append]

theorem Visit.append_lost (v : Visit) (lost : List Nat) :
    v.append ⟨[], none, lost, []⟩ = { v with lost := v.lost ++ lost } := by
  simp [append]

theorem Visit.append_tickers (v : Visit) (l : List Ticker) :
    v.append ⟨[], none, [], l⟩ = { v with tickers := v.tickers ++ l } := by
  simp [append]

theorem Underway.connects {d : Dial} (hu : Underway s.contract c.gateway (.connecting d) v)
    (hst : s.stage = .connecting d) (hg : StreamGoes now c s s' c')
    (hne : c.gateway.events ≠ []) :
    Underway s'.contract c.gateway s'.stage (v.append (visitOf c s s')) := by
  cases hu with
  | connecting h =>
    cases hg with
    | @dials _ d' _ _ hst₀ hd hs' =>
      cases hst.symm.trans hst₀
      have hvisit : visitOf c s { s with stage := .connecting d' } =
          ⟨deedsOf c s, none, [], []⟩ := by
        simp [visitOf, takenOf?, lostOf, hst]
      subst hs'
      rw [hvisit, Visit.append_deeds]
      exact .connecting (h.dials hst hd)
    | connects hst₀ hd hs' =>
      cases hst.symm.trans hst₀
      have hvisit : visitOf c s { s with stage := .pacing c.gateway.subscribe } =
          ⟨deedsOf c s, some c.gateway.subscribe, [], []⟩ := by
        simp [visitOf, takenOf?, lostOf, hst]
      rw [subscribe_congr hd.events] at hs'
      subst hs'
      rw [hvisit]
      -- it receives from here on, what is sent before it asks for the market data included
      obtain ⟨b, hb, hposition⟩ := subscribe_position hne
      exact .pacing (h.connects hst hd) hb (hposition ▸ .begins _ _)
    | refused hst₀ hd hs' =>
      cases hst.symm.trans hst₀
      have hvisit : visitOf c s { s with stage := .cancelling false } =
          ⟨deedsOf c s, none, [], []⟩ := by
        simp [visitOf, takenOf?, lostOf, hst]
      subst hs'
      rw [hvisit, Visit.append_deeds]
      exact .cancelling (.unconnected (h.refused hst hd))
    | _ hst₀ => cases hst.symm.trans hst₀

theorem Underway.asks {events : Gateway.Subscription}
    (hu : Underway s.contract c.gateway (.pacing events) v) (hst : s.stage = .pacing events)
    (hg : StreamGoes now c s s' c') :
    Underway s'.contract c.gateway s'.stage (v.append (visitOf c s s')) := by
  cases hu with
  | @pacing ds _ b h hb hf =>
    cases hg with
    | asks hst₀ hgate hok hs' =>
      cases hst.symm.trans hst₀
      have hvisit : visitOf c s { s with stage := .reading events } =
          ⟨[.calls (.marketData s.contract), .answered true], none, [], []⟩ := by
        simp [visitOf, deedsOf, takenOf?, lostOf, hst, hok]
      subst hs'
      rw [hvisit, Visit.append_deeds]
      exact .reading h hb hf
    | denied hst₀ hgate hfail hs' =>
      have hvisit : visitOf c s { s with stage := .cancelling false } =
          ⟨[.calls (.marketData s.contract), .answered false], none, [], []⟩ := by
        simp [visitOf, deedsOf, takenOf?, lostOf, hst, hfail]
      subst hs'
      rw [hvisit, Visit.append_deeds]
      exact .cancelling (.denied h)
    | _ hst₀ => cases hst.symm.trans hst₀

theorem Underway.reads {events : Gateway.Subscription}
    (hu : Underway s.contract c.gateway (.reading events) v) (hst : s.stage = .reading events)
    (hg : StreamGoes now c s s' c') :
    Underway s'.contract c.gateway s'.stage (v.append (visitOf c s s')) := by
  cases hu with
  | @reading ds sub b stop lost l h hb hf =>
    cases hg with
    | hears hst₀ hh hs' =>
      cases hst.symm.trans hst₀
      have hvisit : visitOf c s s' = .empty := by
        subst hs'
        simp [visitOf, deedsOf, takenOf?, lostOf, hst, hh, Visit.empty]
      subst hs'
      rw [hvisit, Visit.append_empty]
      exact .sending h hb (hf.hears (next_eq_item (hear_eq hb ▸ hh)))
    | @lags _ position _ hst₀ hh hs' =>
      cases hst.symm.trans hst₀
      have hvisit : visitOf c s s' = ⟨[], none, List.range' stop (position - stop), []⟩ := by
        subst hs'
        simp [visitOf, deedsOf, takenOf?, lostOf, hst, hh]
      subst hs'
      obtain ⟨hlt, rfl⟩ := next_eq_lagged (hear_eq hb ▸ hh)
      rw [hvisit, Visit.append_lost]
      exact .reading h hb (hf.lags hlt)
    | ends hst₀ hh hs' =>
      cases hst.symm.trans hst₀
      have hvisit : visitOf c s s' = .empty := by
        subst hs'
        simp [visitOf, deedsOf, takenOf?, lostOf, hst, hh, Visit.empty]
      subst hs'
      obtain ⟨hend, hle⟩ := next_eq_ended (hear_eq hb ▸ hh)
      obtain rfl := Nat.le_antisymm hf.stop_le hle
      rw [hvisit, Visit.append_empty]
      exact .cancelling (.served h hb hend hf)
    | _ hst₀ => cases hst.symm.trans hst₀

theorem Underway.sends {tickers : List Ticker} {events : Gateway.Subscription}
    (hu : Underway s.contract c.gateway (.sending tickers events) v)
    (hst : s.stage = .sending tickers events) (hg : StreamGoes now c s s' c') :
    Underway s'.contract c.gateway s'.stage (v.append (visitOf c s s')) := by
  cases hu with
  | sending h hb hf =>
    cases hg with
    | returns hst₀ hs' =>
      cases hst.symm.trans hst₀
      have hvisit : visitOf c s s' = .empty := by
        subst hs'
        simp [visitOf, deedsOf, takenOf?, lostOf, hst, Visit.empty]
      subst hs'
      rw [List.append_nil] at hf
      rw [hvisit, Visit.append_empty]
      exact .reading h hb hf
    | @sends ticker rest _ _ hst₀ hopen hroom hs' =>
      cases hst.symm.trans hst₀
      have hvisit : visitOf c s s' = ⟨[], none, [], [ticker]⟩ := by
        subst hs'
        simp [visitOf, deedsOf, takenOf?, lostOf, hst]
      subst hs'
      rw [hvisit, Visit.append_tickers]
      exact .sending h hb (by rwa [List.append_assoc])
    | _ hst₀ => cases hst.symm.trans hst₀

theorem Underway.cancels {gone : Bool} (hu : Underway s.contract c.gateway (.cancelling gone) v)
    (hst : s.stage = .cancelling gone) (hg : StreamGoes now c s s' c') :
    Underway s'.contract c.gateway s'.stage (v.append (visitOf c s s')) := by
  cases hu with
  | cancelling h =>
    cases hg with
    | cancels hst₀ hgate hs' =>
      cases hst.symm.trans hst₀
      have hvisit : visitOf c s s' = ⟨[.calls (.cancel s.contract)], none, [], []⟩ := by
        subst hs'
        simp [visitOf, deedsOf, takenOf?, lostOf, hst, Channel.finish]
      subst hs'
      rw [hvisit, Visit.append_deeds]
      exact .ended h
    | retries hst₀ hgate hs' =>
      cases hst.symm.trans hst₀
      have hvisit : visitOf c s s' =
          ⟨[.calls (.cancel s.contract), .calls .disconnect], none, [], []⟩ := by
        subst hs'
        simp [visitOf, deedsOf, takenOf?, lostOf, hst]
      subst hs'
      rw [hvisit, Visit.append_deeds]
      exact .pausing h
    | _ hst₀ => cases hst.symm.trans hst₀

/-- What is seen of a stream that goes on within a session belongs to that session. -/
theorem Underway.goes (hu : Underway s.contract c.gateway s.stage v)
    (hg : StreamGoes now c s s' c') (hne : c.gateway.events ≠ [])
    (hr : renews s s' = false) :
    Underway s'.contract c.gateway s'.stage (v.append (visitOf c s s')) := by
  cases hst : s.stage with
  | connecting d => exact (hst ▸ hu).connects hst hg hne
  | pacing events => exact (hst ▸ hu).asks hst hg
  | reading events => exact (hst ▸ hu).reads hst hg
  | sending tickers events => exact (hst ▸ hu).sends hst hg
  | cancelling gone => exact (hst ▸ hu).cancels hst hg
  | pausing due =>
    cases hg with
    | resumes hst₀ hdue hs' =>
      subst hs'
      simp [renews, hst] at hr
    | _ hst₀ => cases hst.symm.trans hst₀
  | ended => cases hg with | _ hst₀ => cases hst.symm.trans hst₀

/-- A stream that goes on after the pause begins another session. -/
theorem StreamGoes.again (hg : StreamGoes now c s s' c') (hr : renews s s' = true) :
    (∃ due, s.stage = .pausing due) ∧ s'.stage = .connecting .locking ∧
      visitOf c s s' = .empty := by
  unfold renews at hr
  split at hr
  · rename_i due d hst hst'
    cases hg with
    | resumes _ hdue hs' =>
      subst hs'
      exact ⟨⟨due, hst⟩, rfl, by simp [visitOf, deedsOf, takenOf?, lostOf, hst, Visit.empty]⟩
    | _ hst₀ => cases hst.symm.trans hst₀
  · cases hr

theorem Underway.notices (hu : Underway s.contract g s.stage v) (hn : Notices c s s' c') :
    Underway s'.contract g s'.stage v := by
  cases hn with
  | reading hst hclosed hs' =>
    rw [hst] at hu
    subst hs'
    cases hu with
    | reading h hb hf => exact .cancelling (.left h hb hf (List.prefix_refl _))
  | sending hst hclosed hs' =>
    rw [hst] at hu
    subst hs'
    cases hu with
    | sending h hb hf => exact .cancelling (.left h hb hf (List.prefix_append _ _))
  | pausing hst hclosed hs' =>
    rw [hst] at hu
    subst hs'
    cases hu with
    | pausing h => exact .ended h

theorem Notices.idle (hn : Notices c s s' c') : renews s s' = false ∧ takenOf? c s s' = none := by
  cases hn with
  | reading hst _ hs' | sending hst _ hs' | pausing hst _ hs' =>
    subst hs'
    simp [renews, takenOf?, hst]

/-- Whatever a stream does, its sessions go on. -/
theorem Sessions.goes {vs : List Visit} (h : Sessions s.contract c.gateway s.stage vs)
    (hg : StreamGoes now c s s' c') (hne : c.gateway.events ≠ []) {id : Nat}
    {x : Incident (Timed Connector) Event} (hbegins : beginsAt id x = renews s s')
    (hvisit : visitAt id x = visitOf c s s') :
    Sessions s'.contract c.gateway s'.stage (recordAt id vs x) := by
  obtain ⟨hpast, hlast⟩ := h
  cases hr : renews s s' with
  | false =>
    rw [recordAt_concat (hbegins.trans hr), hvisit]
    exact .mk (hg.frame.2.1 ▸ hpast) (hlast.goes hg hne hr)
  | true =>
    obtain ⟨⟨due, hst⟩, hst', hempty⟩ := hg.again hr
    rw [recordAt_of_begins (hbegins.trans hr), hvisit, hempty, hst', hg.frame.2.1]
    refine .mk ?_ (.connecting .locking)
    rw [hst] at hlast
    intro v hv
    rcases List.mem_append.1 hv with hv | hv
    · exact hpast v hv
    · obtain rfl := List.mem_singleton.1 hv
      cases hlast with
      | pausing h => exact ⟨_, h, rfl⟩

end Sessions

/-! ## The queue to the consumer -/

/-- What the consumer of a stream took of what entered its queue. -/
structure Kept (s : Stream) (got all : List Ticker) : Prop where
  behind : got <+: all
  waiting : s.queue.closed = false → all = got ++ s.queue.items
  emptied : s.queue.closed = true → s.queue.items = []
  room : 0 < s.queue.capacity

namespace Kept

variable {id : Nat} {t t' : Timed Connector} {e : Event} {s s' : Stream} {got all : List Ticker}

/-- The same tickers wait. -/
theorem of_items (h : Kept s got all) {ended : Bool} (hs' : s'.queue = { s.queue with ended }) :
    Kept s' (got ++ []) (all ++ s'.queue.items.drop s.queue.items.length) := by
  rw [hs', List.drop_length, List.append_nil, List.append_nil]
  refine ⟨h.behind, ?_, ?_, ?_⟩
  · rw [hs']
    exact h.waiting
  · rw [hs']
    exact h.emptied
  · rw [hs']
    exact h.room

theorem next (h : Kept s got all) (hs : t.world.stream? id = some s)
    (htreats : Treats id t e t' s s') :
    Kept s' (got ++ receivedAt id ⟨t, e, t'⟩)
      (all ++ s'.queue.items.drop s.queue.items.length) := by
  cases htreats with
  | goes he hg =>
    rw [receivedAt_of_ne (by simp [he])]
    rcases hg.queue with ⟨ended, hs'⟩ | ⟨hopen, -, ticker, hs'⟩
    · exact h.of_items hs'
    · rw [hs', List.drop_left, List.append_nil]
      refine ⟨h.behind.trans (List.prefix_append _ _), fun _ => ?_, fun hclosed => ?_, ?_⟩
      · rw [hs', h.waiting hopen, List.append_assoc]
      · rw [hs', hopen] at hclosed
        cases hclosed
      · rw [hs']
        exact h.room
  | notices he hn =>
    rw [receivedAt_of_ne (by simp [he])]
    obtain ⟨ended, hs'⟩ := hn.queue
    exact h.of_items hs'
  | takes he =>
    subst he
    rw [receivedAt_receive hs]
    rw [List.drop_eq_nil_of_le (by simp), List.append_nil]
    cases hclosed : s.queue.closed with
    | false =>
      have hall : all = got ++ s.queue.items.take 1 ++ s.queue.items.tail := by
        rw [h.waiting hclosed, List.append_assoc, ← List.drop_one, List.take_append_drop]
      exact ⟨⟨_, hall.symm⟩, fun _ => hall,
        fun hno => Bool.noConfusion (hclosed.symm.trans hno), h.room⟩
    | true =>
      have hitems := h.emptied hclosed
      rw [hitems, List.take_nil, List.append_nil]
      refine ⟨h.behind, fun hno => Bool.noConfusion (hclosed.symm.trans hno), fun _ => ?_, h.room⟩
      rfl
  | leaves he =>
    rw [receivedAt_of_ne (by simp [he])]
    simp only [Channel.close, List.drop_nil, List.append_nil]
    exact ⟨h.behind, nofun, fun _ => rfl, h.room⟩
  | stays he hr =>
    rw [receivedAt_of_ne hr]
    exact h.of_items rfl

end Kept

/-! ## All streams of a history -/

/-- What is known of a stream after a history. -/
structure Account (g : Gateway) (s : Stream) (vs : List Visit) (got all : List Ticker)
    (ds : List Deed) : Prop extends Kept s got all where
  sessions : Sessions s.contract g s.stage vs
  tickers : all = vs.flatMap Visit.tickers
  deeds : ds = vs.flatMap Visit.deeds

/-- What is found of the streams of a connector after a history: each that is there has its
account, and no others have been seen. -/
structure Accounts (h : List (Incident (Timed Connector) Event)) (t : Timed Connector) : Prop where
  present : ∀ id s, t.world.stream? id = some s →
    Account t.world.gateway s (visits id h) (received id h) (accepted id h) (deeds id h)
  absent : ∀ id, t.world.stream? id = none →
    visits id h = [] ∧ received id h = [] ∧ accepted id h = [] ∧ deeds id h = []
  events : t.world.gateway.events ≠ []

section Histories

variable {c : Connector} {id start : Nat} {t t' : Timed Connector} {e : Event} {s s' : Stream}
  {vs : List Visit} {got all : List Ticker} {ds : List Deed}
  {h : List (Incident (Timed Connector) Event)}

/-- What is seen of an incident is part of some session. -/
theorem flatMap_recordAt {α : Type} {f : Visit → List α}
    (hf : ∀ v w : Visit, f (v.append w) = f v ++ f w) {x : Incident (Timed Connector) Event}
    (hne : vs ≠ []) : (recordAt id vs x).flatMap f = vs.flatMap f ++ f (visitAt id x) := by
  obtain ⟨past, last, rfl⟩ := (List.eq_nil_or_concat vs).resolve_left hne
  rw [List.concat_eq_append]
  cases hbegins : beginsAt id x with
  | true => rw [recordAt_of_begins hbegins, flatMap_concat]
  | false =>
    rw [recordAt_concat hbegins, flatMap_concat, flatMap_concat, hf, List.append_assoc]

theorem Sessions.ne_nil {contract : Contract} {g : Gateway} {stage : Stage}
    (h : Sessions contract g stage vs) : vs ≠ [] := by
  obtain ⟨hpast, hlast⟩ := h
  exact List.append_ne_nil_of_right_ne_nil _ (List.cons_ne_nil _ _)

/-- But for the stream itself nothing begins a session, and nothing enters the queue. -/
theorem Treats.idle (h : Treats id t e t' s s') (he : e ≠ .move (.stream id)) :
    renews s s' = false ∧ takenOf? t.world s s' = none ∧
      s'.queue.items.length ≤ s.queue.items.length := by
  have hsame {s' : Stream} (hst : s'.stage = s.stage) :
      renews s s' = false ∧ takenOf? t.world s s' = none := by
    simp only [renews, takenOf?, hst]
    cases s.stage <;> exact ⟨rfl, rfl⟩
  cases h with
  | goes hgo => exact absurd hgo he
  | notices _ hn =>
    obtain ⟨ended, hqueue⟩ := hn.queue
    exact ⟨hn.idle.1, hn.idle.2, by rw [hqueue]⟩
  | takes => exact ⟨(hsame rfl).1, (hsame rfl).2, by simp⟩
  | leaves => exact ⟨(hsame rfl).1, (hsame rfl).2, Nat.zero_le _⟩
  | stays => exact ⟨(hsame rfl).1, (hsame rfl).2, Nat.le_refl _⟩

theorem Treats.recordAt (h : Treats id t e t' s s') (he : e ≠ .move (.stream id))
    (hs : t.world.stream? id = some s) (hs' : t'.world.stream? id = some s') (hne : vs ≠ []) :
    recordAt id vs ⟨t, e, t'⟩ = vs := by
  obtain ⟨hrenews, htaken, hle⟩ := h.idle he
  obtain ⟨past, last, rfl⟩ := (List.eq_nil_or_concat vs).resolve_left hne
  rw [List.concat_eq_append, recordAt_concat ((beginsAt_of_some hs hs').trans hrenews),
    visitAt_of_ne he hs hs' htaken hle, Visit.append_empty]

theorem Sessions.next (h : Sessions s.contract t.world.gateway s.stage vs)
    (hne : t.world.gateway.events ≠ []) (hs : t.world.stream? id = some s)
    (hs' : t'.world.stream? id = some s') (htreats : Treats id t e t' s s') :
    Sessions s'.contract t.world.gateway s'.stage (recordAt id vs ⟨t, e, t'⟩) := by
  have hidle (he : e ≠ .move (.stream id)) : recordAt id vs ⟨t, e, t'⟩ = vs :=
    htreats.recordAt he hs hs' h.ne_nil
  cases htreats with
  | goes he hg =>
    subst he
    exact h.goes hg hne (beginsAt_of_some hs hs') (visitAt_goes hs hs')
  | notices he hn =>
    rw [hidle (by simp [he])]
    obtain ⟨hpast, hlast⟩ := h
    exact .mk (hn.frame.2.1 ▸ hpast) (hlast.notices hn)
  | takes he =>
    rw [hidle (by simp [he])]
    exact h
  | leaves he =>
    rw [hidle (by simp [he])]
    exact h
  | stays he hr =>
    rw [hidle he]
    exact h

theorem Account.next (h : Account t.world.gateway s vs got all ds)
    (hne : t.world.gateway.events ≠ []) (hs : t.world.stream? id = some s)
    (hs' : t'.world.stream? id = some s') (htreats : Treats id t e t' s s')
    (hg : t.world.gateway.Grows t'.world.gateway) :
    Account t'.world.gateway s' (recordAt id vs ⟨t, e, t'⟩)
      (got ++ receivedAt id ⟨t, e, t'⟩) (all ++ acceptedAt id ⟨t, e, t'⟩)
      (ds ++ deedsAt id ⟨t, e, t'⟩) where
  toKept := by
    rw [acceptedAt_of_some hs hs']
    exact h.toKept.next hs htreats
  sessions := (h.sessions.next hne hs hs' htreats).grows hg
  tickers := by
    rw [flatMap_recordAt (fun _ _ => rfl) h.sessions.ne_nil, ← h.tickers]
    rfl
  deeds := by
    rw [flatMap_recordAt (fun _ _ => rfl) h.sessions.ne_nil, ← h.deeds]
    rfl

theorem Account.begins (id : Nat) (contract : Contract) (g : Gateway) {capacity : Nat}
    (hroom : 0 < capacity) :
    Account g ⟨id, contract, .new capacity, .connecting .locking⟩ [.empty] [] [] [] where
  sessions := @Sessions.mk _ _ _ [] _ nofun (.connecting .locking)
  tickers := rfl
  deeds := rfl
  behind := List.prefix_refl _
  waiting _ := rfl
  emptied := nofun
  room := hroom

theorem Accounts.next (h' : Accounts h t) (he : happens e t = some t')
    (hlaw : ∀ g, e = .change g → t.world.gateway.Grows g) : Accounts (h ++ [⟨t, e, t'⟩]) t' := by
  have hgrows := grows_of_happens he hlaw
  have hconcat (id : Nat) : visits id (h ++ [⟨t, e, t'⟩]) = recordAt id (visits id h) ⟨t, e, t'⟩ :=
    visits_concat _ _
  refine ⟨fun id s' hs' => ?_, fun id hs' => ?_, hgrows.ne_nil h'.events⟩
  · rw [hconcat, received_concat, accepted_concat, deeds_concat]
    cases hs : t.world.stream? id with
    | some s =>
      obtain ⟨s₁, hs₁, htreats⟩ := treats_of_happens he hs
      cases hs'.symm.trans hs₁
      exact (h'.present id s hs).next h'.events hs hs' htreats hgrows
    | none =>
      obtain ⟨hvisits, hreceived, haccepted, hdeeds⟩ := h'.absent id hs
      have hbegins : beginsAt id ⟨t, e, t'⟩ = true := by
        simp only [beginsAt, hs, hs']
      have hempty : visitAt id ⟨t, e, t'⟩ = .empty := visitAt_of_absent hs
      have hnone : acceptedAt id ⟨t, e, t'⟩ = [] := congrArg Visit.tickers hempty
      rw [hvisits, hreceived, haccepted, hdeeds, recordAt_of_begins hbegins, hempty,
        receivedAt_of_absent hs, hnone, deedsAt_of_absent hs]
      cases fares_of_happens he id with
      | begins _ _ hs₁ =>
        cases hs'.symm.trans hs₁
        exact .begins id _ _ (Nat.lt_of_lt_of_le Nat.zero_lt_one (Nat.le_max_right _ _))
      | stays hsame => cases hs'.symm.trans (hsame.trans hs)
      | goes hs₀ | notices hs₀ | serves hs₀ => cases hs.symm.trans hs₀
  · rw [hconcat, received_concat, accepted_concat, deeds_concat]
    cases hs : t.world.stream? id with
    | some s =>
      obtain ⟨s₁, hs₁, -⟩ := treats_of_happens he hs
      cases hs'.symm.trans hs₁
    | none =>
      obtain ⟨hvisits, hreceived, haccepted, hdeeds⟩ := h'.absent id hs
      have hbegins : beginsAt id ⟨t, e, t'⟩ = false := by
        simp only [beginsAt, hs, hs']
      have hempty : visitAt id ⟨t, e, t'⟩ = .empty := visitAt_of_absent hs
      have hnone : acceptedAt id ⟨t, e, t'⟩ = [] := congrArg Visit.tickers hempty
      rw [hvisits, hreceived, haccepted, hdeeds, recordAt_nil hbegins, receivedAt_of_absent hs,
        hnone, deedsAt_of_absent hs]
      exact ⟨rfl, rfl, rfl, rfl⟩

theorem accounts_of_history {config : Config} {gateway : Gateway} {timeOfDay : Nat → Instant}
    (hc : Connector.new config gateway timeOfDay = .ok c) (hevents : gateway.events ≠ [])
    (hist : History happens ⟨start, c⟩ h t) (hlaw : Lawful h) : Accounts h t := by
  induction hist with
  | nil =>
    obtain ⟨l, -, rfl⟩ := new_eq hc
    refine ⟨?_, fun _ _ => ⟨rfl, rfl, rfl, rfl⟩, hevents⟩
    rintro id s ⟨⟩
  | snoc _ he ih =>
    obtain ⟨hbefore, hlast⟩ := lawful_concat.1 hlaw
    exact (ih hbefore).next he hlast

end Histories

end Ibkr
end MarketFeed
