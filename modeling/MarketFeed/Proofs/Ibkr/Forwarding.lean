import MarketFeed.Proofs.Ibkr.Attended

/-!
# MarketFeed.Proofs.Ibkr.Forwarding

The tickers of a contract reach the consumer, and no others.

* `Forwards` — what a session passes on. `Delivery` — what the consumer has after a history.
* `Watched.forwards` — in an attended history a session whose request was granted passes on all
  that is sent.
* `tickers_forwarded` — both, for every stream of a new connector.
-/

namespace MarketFeed
namespace Ibkr

/-! ## Sessions -/

/-- What a session passes on: nothing if it was not connected or its request was denied; else the
tickers of its contract in the batches sent since it was connected, but for those that were lost. -/
structure Forwards (contract : Contract) (g : Gateway) (v : Visit) : Prop where
  failed : Deed.answered true ∉ v.deeds → v.tickers = []
  /-- What has been read may not yet have been sent; but a session after which there was another
  went on to the end of the events. -/
  granted : Deed.answered true ∈ v.deeds → ∃ sub b stop all, v.from? = some sub ∧
    g.events[sub.source]? = some b ∧ Forwarded contract b sub.position stop v.lost all ∧
    v.tickers <+: all ∧
    (Deed.calls .disconnect ∈ v.deeds → b.ended = true ∧ stop = b.sent.length ∧ v.tickers = all)

section Sessions

variable {contract : Contract} {g : Gateway} {gone : Bool} {stage : Stage} {v : Visit}
  {vs : List Visit} {ds : List Deed}

theorem Connecting.not_answered {ok : Bool} (h : Connecting ok ds) (b : Bool) :
    Deed.answered b ∉ ds := by
  cases h <;> simp

theorem Connecting.not_disconnect {ok : Bool} (h : Connecting ok ds) :
    Deed.calls .disconnect ∉ ds := by
  cases h <;> simp

/-- A session whose events have ended has passed on all of them. -/
theorem Over.whole (h : Over contract g false v) (hgranted : Deed.answered true ∈ v.deeds) :
    ∃ sub b, v.from? = some sub ∧ g.events[sub.source]? = some b ∧
      Forwarded contract b sub.position b.sent.length v.lost v.tickers := by
  cases h with
  | unconnected h => exact absurd hgranted (h.not_answered true)
  | denied h => simp [h.not_answered] at hgranted
  | served h hb hend hf => exact ⟨_, _, rfl, hb, hf⟩

/-- The deeds of a session up to its cancelling. -/
theorem Over.session (h : Over contract g gone v) :
    Session contract gone (v.deeds ++ [Deed.calls (.cancel contract)]) := by
  cases h with
  | unconnected h => exact .unconnected h
  | denied h => exact .denied h
  | served h => exact .served false h
  | left h => exact .served true h

/-- A session that has ended, whether or not it has cancelled. -/
theorem Over.forwards (h : Over contract g gone v)
    (hds : ∀ d ∈ ds, d = .calls (.cancel contract) ∨ gone = false ∧ d = .calls .disconnect) :
    Forwards contract g { v with deeds := v.deeds ++ ds } := by
  have hanswered (b : Bool) : Deed.answered b ∉ ds := by
    intro hmem
    rcases hds _ hmem with hd | ⟨-, hd⟩ <;> cases hd
  cases h with
  | unconnected h => exact ⟨fun _ => rfl, by simp [h.not_answered, hanswered]⟩
  | denied h => exact ⟨fun _ => rfl, by simp [h.not_answered, hanswered]⟩
  | served h hb hend hf =>
    exact ⟨by simp, fun _ => ⟨_, _, _, _, rfl, hb, hf, List.prefix_refl _,
      fun _ => ⟨hend, rfl, rfl⟩⟩⟩
  | left h hb hf hpart =>
    refine ⟨by simp, fun _ => ⟨_, _, _, _, rfl, hb, hf, hpart, fun hmem => ?_⟩⟩
    have hlater : Deed.calls .disconnect ∈ ds := by
      simpa [h.not_disconnect] using hmem
    rcases hds _ hlater with hd | ⟨hgone, -⟩
    · cases hd
    · cases hgone

theorem Over.forwards_close (h : Over contract g gone v) :
    Forwards contract g (v.close contract gone) := by
  refine h.forwards fun d hd => ?_
  cases gone <;> simpa using hd

theorem Underway.forwards (h : Underway contract g stage v) : Forwards contract g v := by
  cases h with
  | connecting h => exact ⟨fun _ => rfl, by cases h <;> simp⟩
  | pacing h => exact ⟨fun _ => rfl, fun hmem => absurd hmem (h.not_answered true)⟩
  | reading h hb hf =>
    exact ⟨by simp, fun _ => ⟨_, _, _, _, rfl, hb, hf, List.prefix_refl _,
      by simp [h.not_disconnect]⟩⟩
  | sending h hb hf =>
    exact ⟨by simp, fun _ => ⟨_, _, _, _, rfl, hb, hf, List.prefix_append _ _,
      by simp [h.not_disconnect]⟩⟩
  | cancelling h =>
    have hsame := h.forwards (List.forall_mem_nil _)
    rwa [List.append_nil] at hsame
  | pausing h => exact h.forwards_close
  | ended h => exact h.forwards_close

theorem Sessions.forwards (h : Sessions contract g stage vs) :
    (∀ v ∈ vs, Forwards contract g v) ∧ ∀ v ∈ vs.dropLast, ∃ ds, Session contract false ds ∧
      v.deeds = ds ++ [Deed.calls .disconnect] := by
  obtain ⟨hpast, hlast⟩ := h
  refine ⟨fun v hv => ?_, fun v hv => ?_⟩
  · rcases List.mem_append.1 hv with hv | hv
    · obtain ⟨w, hover, rfl⟩ := hpast v hv
      exact hover.forwards_close
    · obtain rfl := List.mem_singleton.1 hv
      exact hlast.forwards
  · rw [List.dropLast_concat] at hv
    obtain ⟨w, hover, rfl⟩ := hpast v hv
    exact ⟨_, hover.session, by simp [Visit.close]⟩

end Sessions

/-! ## Deliveries -/

/-- What the consumer of a stream has after a history. -/
structure Delivery (h : List (Incident (Timed Connector) Event)) (t : Timed Connector) (id : Nat)
    (s : Stream) : Prop where
  /-- It has taken the first of the tickers that were sent; the others wait for it. -/
  behind : received id h <+: accepted id h
  waiting : s.queue.closed = false → accepted id h = received id h ++ s.queue.items
  /-- The sessions follow each other, in what is sent as in what is done. -/
  tickers : accepted id h = (visits id h).flatMap Visit.tickers
  deeds : deeds id h = (visits id h).flatMap Visit.deeds
  retried : ∀ v ∈ (visits id h).dropLast, ∃ ds, Session s.contract false ds ∧
    v.deeds = ds ++ [Deed.calls .disconnect]
  forwards : ∀ v ∈ visits id h, Forwards s.contract t.world.gateway v

theorem Account.delivery {h : List (Incident (Timed Connector) Event)} {t : Timed Connector}
    {id : Nat} {s : Stream} (ha : Account t.world.gateway s (visits id h) (received id h)
      (accepted id h) (Ibkr.deeds id h)) : Delivery h t id s where
  behind := ha.behind
  waiting := ha.waiting
  tickers := ha.tickers
  deeds := ha.deeds
  retried := ha.sessions.forwards.2
  forwards := ha.sessions.forwards.1

/-! ## When the consumer goes on to take tickers -/

/-- At some later moment a session has passed on the batches before a position, and later still the
consumer has taken their tickers. -/
def Reaches (id : Nat) (t : Nat → Timed Connector) (e : Nat → Event) (contract : Contract)
    (n : Nat) (sub : Gateway.Subscription) (m i : Nat) : Prop :=
  ∃ j k v b stop, i ≤ j ∧ j ≤ k ∧ (visits id (incidents t e j))[n]? = some v ∧
    v.from? = some sub ∧ (t j).world.gateway.events[sub.source]? = some b ∧ m ≤ stop ∧
    Forwarded contract b sub.position stop v.lost v.tickers ∧
    accepted id (incidents t e j) <+: received id (incidents t e k)

section Attended

variable {id n m p : Nat} {t : Nat → Timed Connector} {e : Nat → Event} {i j : Nat} {s : Stream}
  {contract : Contract} {sub : Gateway.Subscription} {stage : Stage} {all : List Ticker}
  {v : Visit} {b : Broadcast (List Ticker)}

theorem Reaches.earlier (h : Reaches id t e contract n sub m j) (hij : i ≤ j) :
    Reaches id t e contract n sub m i := by
  obtain ⟨j', k, v, b, stop, hj, hrest⟩ := h
  exact ⟨j', k, v, b, stop, by omega, hrest⟩

namespace Watched

variable (hw : Watched id t e)
include hw

theorem reaches (hs : (t i).world.stream? id = some s)
    (hv : (visits id (incidents t e i))[n]? = some v) (hsub : v.from? = some sub)
    (hb : (t i).world.gateway.events[sub.source]? = some b) {stop : Nat} (hstop : m ≤ stop)
    (hf : Forwarded contract b sub.position stop v.lost v.tickers) :
    Reaches id t e contract n sub m i := by
  obtain ⟨k, hk, hgot⟩ := hw.received_all hs
  exact ⟨i, k, v, b, stop, Nat.le_refl i, hk, hv, hsub, hb, hstop, hf, hgot⟩

theorem reaches_of_reading (h : At id t e contract n sub (.reading ⟨sub.source, p⟩) all i)
    (hb : (t i).world.gateway.events[sub.source]? = some b) (hm : m ≤ b.sent.length) :
    Reaches id t e contract n sub m i := by
  obtain ⟨j, stop, all', hj, hstop, hat⟩ := hw.catches_up h hb hm
  obtain ⟨s, hs, -⟩ := hat.stream
  obtain ⟨past, last, hvisits, hlength, hfrom, hlast⟩ := hw.underway hat
  have hget : (visits id (incidents t e j))[n]? = some last := by
    rw [hvisits, ← hlength, List.getElem?_concat_length]
  refine Reaches.earlier ?_ hj
  generalize hst : Stage.reading ⟨sub.source, stop⟩ = stage at hlast
  cases hlast with
  | reading _ hb' hf =>
    cases hfrom
    cases hst
    exact hw.reaches hs hget rfl hb' hstop hf
  | _ => cases hst

/-- A session whose events have ended has passed on all of them. -/
theorem reaches_of_over {w : Visit} (hs : (t i).world.stream? id = some s)
    (hv : (visits id (incidents t e i))[n]? = some v) (hgranted : Deed.answered true ∈ v.deeds)
    (hsub : v.from? = some sub) (hb : (t i).world.gateway.events[sub.source]? = some b)
    (hover : Over contract (t i).world.gateway false w)
    (hclose : v = w ∨ v = w.close contract false) :
    Reaches id t e contract n sub b.sent.length i := by
  refine hw.reaches hs hv hsub hb (Nat.le_refl _) ?_
  rcases hclose with rfl | rfl
  all_goals
    obtain ⟨sub', b', hsub', hb', hf⟩ := hover.whole (by simpa [Visit.close] using hgranted)
    cases hsub'.symm.trans hsub
    cases hb'.symm.trans hb
    exact hf

/-- The last session goes on until it has. -/
theorem reaches_of_last (hs : (t i).world.stream? id = some s)
    (hat : At id t e s.contract n sub s.stage all i)
    (hv : (visits id (incidents t e i))[n]? = some v) (hgranted : Deed.answered true ∈ v.deeds)
    (hsub : v.from? = some sub) (hb : (t i).world.gateway.events[sub.source]? = some b)
    (hlast : Underway s.contract (t i).world.gateway s.stage v) :
    Reaches id t e s.contract n sub b.sent.length i := by
  obtain ⟨-, hstays, hends⟩ := hw.opened i s hs
  generalize s.stage = stage at hlast hat hstays hends
  cases hlast with
  | connecting => cases hsub
  | pacing h => exact absurd hgranted (h.not_answered true)
  | reading h =>
    cases hsub
    exact hw.reaches_of_reading hat hb (Nat.le_refl _)
  | sending h =>
    cases hsub
    obtain ⟨j, all', hj, hread⟩ := hw.drains hat
    obtain ⟨b', hb', hgrows⟩ := hw.grows_of_le hj _ b hb
    exact (hw.reaches_of_reading hread hb' hgrows.length_le).earlier hj
  | @cancelling gone _ hover =>
    cases gone with
    | true => exact absurd rfl hstays
    | false => exact hw.reaches_of_over hs hv hgranted hsub hb hover (.inl rfl)
  | pausing hover => exact hw.reaches_of_over hs hv hgranted hsub hb hover (.inr rfl)
  | ended => exact absurd rfl hends

/-- A session whose request was granted passes on all that is sent, be it the last or not. -/
theorem forwards (hs : (t i).world.stream? id = some s)
    (hv : (visits id (incidents t e i))[n]? = some v) (hgranted : Deed.answered true ∈ v.deeds)
    (hsub : v.from? = some sub) (hb : (t i).world.gateway.events[sub.source]? = some b) :
    Reaches id t e s.contract n sub b.sent.length i := by
  have hsessions := ((hw.accounts i).present id s hs).sessions
  generalize hvs : visits id (incidents t e i) = vs at hsessions
  cases hsessions with
  | @mk past last hpast hlast =>
    rcases Nat.lt_or_ge n past.length with hlt | hge
    · have hget := hv
      rw [hvs, List.getElem?_append_left hlt] at hget
      obtain ⟨w, hover, hclose⟩ := hpast v (List.mem_of_getElem? hget)
      exact hw.reaches_of_over hs hv hgranted hsub hb hover (.inr hclose)
    · obtain ⟨hn, rfl⟩ : n = past.length ∧ last = v := by
        rw [hvs, List.getElem?_append_right hge, List.getElem?_singleton] at hv
        split at hv
        · cases hv
          exact ⟨by omega, rfl⟩
        · cases hv
      have hat : At id t e s.contract n sub s.stage (accepted id (incidents t e i)) i :=
        ⟨⟨past, last, hvs, hn.symm, hsub⟩, rfl, s, hs, rfl, rfl⟩
      exact hw.reaches_of_last hs hat hv hgranted hsub hb hlast

end Watched
end Attended

/-- The tickers of a contract are forwarded, all of them and no others, from any new connector on,
as long as its gateway only adds to its events. After every history, for each of its streams:

* what the consumer has taken are the first of the tickers that were sent to it;
* the sessions follow each other: what was sent is what they passed on, one after another;
* a session that was not connected, or was denied the market data, passed on nothing;
* any other passed on, in their order, the tickers of its contract in the batches since it was
  connected, which is before it asked for the market data, but for the batches that the broadcast
  told to be lost; it went on to the end of the events if another session followed.

If the consumer goes on to take tickers, what is sent in such a session reaches it. -/
theorem tickers_forwarded {config : Config} {gateway : Gateway} {timeOfDay : Nat → Instant}
    {c : Connector} (start : Nat) (hc : Connector.new config gateway timeOfDay = .ok c)
    (hevents : gateway.events ≠ []) :
    (∀ h t id s, History happens ⟨start, c⟩ h t → Lawful h → t.world.stream? id = some s →
      Delivery h t id s) ∧
    ∀ id t e, Attended id t e → t 0 = ⟨start, c⟩ → ∀ i s n v sub b,
      (t i).world.stream? id = some s → (visits id (incidents t e i))[n]? = some v →
      Deed.answered true ∈ v.deeds → v.from? = some sub →
      (t i).world.gateway.events[sub.source]? = some b →
        Reaches id t e s.contract n sub b.sent.length i := by
  refine ⟨fun h t id s hist hlaw hs => ?_, fun id t e ha hstart i s n v sub b hs hv => ?_⟩
  · exact ((accounts_of_history hc hevents hist hlaw).present id s hs).delivery
  · exact (ha.watched hc hevents hstart).forwards hs hv

/-! ## Two sessions -/

namespace Trading

def contract : Contract := .future "ES" "CME" "USD"

/-- The same symbol at another exchange. -/
def other : Contract := .future "ES" "EUREX" "EUR"

def ticker (contract : Contract) (price : Int) : Ticker :=
  ⟨contract, default, Decimal.ofInt? price, none, none, none⟩

/-- Two batches are held for slow receivers. -/
def events : Broadcast (List Ticker) := ⟨2, [], false⟩

def market : Gateway :=
  ⟨⟨0, fun _ => none, fun _ => none, fun _ => .ok [], 2⟩, true, 0, 0, 0, [events], []⟩

def connector : Connector :=
  ⟨.default, market, .new ⟨45, 1000000000, [], Nat.succ_pos 44, Span.second_pos⟩, .free, [], [], 0,
    fun _ => default⟩

/-- The stream goes on. -/
def goesOn : Event := .move (.stream 0)

def publishes (batch : List Ticker) (t : Timed Connector) : Event :=
  .change (t.world.gateway.publish batch)

/-- The events end, and others take their place. -/
def endsEvents (t : Timed Connector) : Event :=
  .change { t.world.gateway with
    events := t.world.gateway.events.map (fun b => { b with ended := true }) ++ [events] }

/-- The events of a plan, in which what comes next may depend on what there is. -/
def follow : List (Timed Connector → Event) → Timed Connector → List Event
  | [], _ => []
  | next :: plan, t => next t :: ((happens (next t) t).map (follow plan)).getD []

/-- In the first session there is a batch before the request, and one that is lost. -/
def plan : List (Timed Connector → Event) :=
  [fun _ => .openStream contract, fun _ => goesOn,
    publishes [ticker contract 1, ticker other 2]] ++
  List.replicate 4 (fun _ => goesOn) ++
  [publishes [ticker contract 3], publishes [ticker other 4, ticker contract 5],
    publishes [ticker contract 6]] ++
  List.replicate 4 (fun _ => goesOn) ++ endsEvents :: List.replicate 5 (fun _ => goesOn) ++
  [fun _ => .receive 0, fun _ => .wait 5000000000] ++ List.replicate 5 (fun _ => goesOn) ++
  [publishes [ticker contract 7, ticker other 8]]

def rest : List Event := List.replicate 3 goesOn ++ List.replicate 4 (.receive 0)

def first : Visit where
  deeds := [.finds true, .calls (.marketData contract), .answered true, .calls (.cancel contract),
    .calls .disconnect]
  from? := some ⟨0, 0⟩
  lost := [1]
  tickers := [ticker contract 1, ticker contract 5, ticker contract 6]

def second : Visit where
  deeds := [.finds false, .calls .connect, .connected true, .calls (.marketData contract),
    .answered true]
  from? := some ⟨1, 0⟩
  lost := []
  tickers := []

theorem replay_plan :
    (History.replay happens (follow plan ⟨0, connector⟩) ⟨0, connector⟩).bind (fun r =>
      (History.replay happens rest r.2).map fun r' =>
        ((r.2.world.stream? 0).map Stream.contract,
          r.2.world.gateway.events[1]?.map fun b => b.sent.length,
          visits 0 r.1, received 0 (r.1 ++ r'.1),
          decide (Lawful r.1 ∧ Lawful r'.1 ∧ r'.2.world.isQuiet = true))) =
    some (some contract, some 1, [first, second],
      [ticker contract 1, ticker contract 5, ticker contract 6, ticker contract 7], true) := by
  decide +kernel

theorem mem_follow {steps : List (Timed Connector → Event)} {t : Timed Connector} {e : Event}
    (h : e ∈ follow steps t) : ∃ next ∈ steps, ∃ t', e = next t' := by
  induction steps generalizing t with
  | nil => cases h
  | cons next steps ih =>
    rcases List.mem_cons.1 h with rfl | h
    · exact ⟨next, .head _, t, rfl⟩
    · cases hnext : happens (next t) t with
      | none =>
        rw [hnext] at h
        cases h
      | some t' =>
        rw [hnext] at h
        obtain ⟨next', hmem, hrest⟩ := ih h
        exact ⟨next', .tail _ hmem, hrest⟩

/-- The consumer stays. -/
theorem not_drop_of_mem {t : Timed Connector} {e : Event} (h : e ∈ follow plan t) :
    e ≠ .drop 0 := by
  have hstays : ∀ next ∈ plan, ∀ t, next t ≠ .drop 0 := by
    simp [plan, goesOn, publishes, endsEvents, or_imp, forall_and]
  obtain ⟨next, hmem, t', rfl⟩ := mem_follow h
  exact hstays next hmem t'

end Trading

/-- A batch is lost in the first session, and the events end; the second session passes on what is
sent in it. Of the other contract nothing is passed on. -/
theorem tickers_forwarded_twice :
    Connector.new .default Trading.market (fun _ => default) = .ok Trading.connector ∧
      Trading.market.events ≠ [] ∧
      ∃ h t s b, History happens ⟨0, Trading.connector⟩ h t ∧ Lawful h ∧
        t.world.stream? 0 = some s ∧ s.contract = Trading.contract ∧
        visits 0 h = [Trading.first, Trading.second] ∧ Delivery h t 0 s ∧
        t.world.gateway.events[1]? = some b ∧ b.sent.length = 1 ∧
        ∃ t₀ e i, Attended 0 t₀ e ∧ t₀ 0 = ⟨0, Trading.connector⟩ ∧ incidents t₀ e i = h ∧
          t₀ i = t ∧ Reaches 0 t₀ e Trading.contract 1 ⟨1, 0⟩ 1 i := by
  have hc : Connector.new .default Trading.market (fun _ => default) = .ok Trading.connector := rfl
  have hevents : Trading.market.events ≠ [] := List.cons_ne_nil _ _
  obtain ⟨hdelivers, hreaches⟩ := tickers_forwarded 0 hc hevents
  obtain ⟨⟨h, t⟩, hr, hrest⟩ := Option.bind_eq_some_iff.1 Trading.replay_plan
  obtain ⟨⟨h', t'⟩, hr', heq⟩ := Option.map_eq_some_iff.1 hrest
  simp only [Prod.mk.injEq, decide_eq_true_eq] at heq
  obtain ⟨hstream, hsent, hvisits, -, hlaw, hlaw', hquiet⟩ := heq
  obtain ⟨s, hs, hcontract⟩ := Option.map_eq_some_iff.1 hstream
  obtain ⟨b, hb, hlength⟩ := Option.map_eq_some_iff.1 hsent
  have hist := History.of_replay hr
  refine ⟨hc, hevents, h, t, s, b, hist, hlaw, hs, hcontract, hvisits,
    hdelivers h t 0 s hist hlaw hs, hb, hlength, ?_⟩
  obtain ⟨t₂, e₂, ha₂, hstart₂⟩ := exists_attended 0 t'.now hquiet
  obtain ⟨t₁, e₁, ha₁, hstart₁, -, -⟩ := ha₂.of_replay hr' hstart₂ hlaw' (by
    simp [Trading.rest, Trading.goesOn])
  obtain ⟨t₀, e, ha, hstart, hinc, hnow⟩ := ha₁.of_replay hr hstart₁ hlaw
    fun _ => Trading.not_drop_of_mem
  refine ⟨t₀, e, _, ha, hstart, hinc, hnow, ?_⟩
  rw [← hnow] at hs hb
  rw [← hinc] at hvisits
  have hsecond : (visits 0 (incidents t₀ e (Trading.follow Trading.plan
      ⟨0, Trading.connector⟩).length))[1]? = some Trading.second := by
    rw [hvisits]
    rfl
  have hpassed := hreaches 0 t₀ e ha hstart _ s 1 _ ⟨1, 0⟩ b hs hsecond (by decide) rfl hb
  rwa [hcontract, hlength] at hpassed

end Ibkr
end MarketFeed
