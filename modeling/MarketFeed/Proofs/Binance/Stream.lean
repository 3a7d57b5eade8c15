import MarketFeed.Proofs.Binance.Closing
import MarketFeed.Proofs.Binance.Delivery

/-!
# MarketFeed.Proofs.Binance.Stream

The streams of a connector tell what the feed offers.

* `Told.prefix_of_whole` — trades of openings are the first of all their trades.
* `course_of_history` — the calls of the venue are the grants of the gate.
* `stream_tells_feed` — every stream, whatever happens: the trades that it delivers, its openings
  and their delays and grants, what it does without its consumer, and what it must come to.
-/

namespace MarketFeed
namespace Binance

/-- All trades of openings that are over. -/
theorem AllOver.eq_of_whole {os : List Opening} {l l' : List Trade} (h : AllOver os l)
    (h' : Whole os l') : l = l' := by
  induction h generalizing l' with
  | nil =>
    generalize hos : ([] : List Opening) = os at h'
    cases h' with
    | nil => rfl
    | snoc => exact absurd hos.symm (List.append_ne_nil_of_right_ne_nil _ (List.cons_ne_nil _ _))
  | @snoc os o l₁ l₂ _ ho ih =>
    generalize hos : os ++ [o] = os' at h'
    cases h' with
    | nil => exact absurd hos (List.append_ne_nil_of_right_ne_nil _ (List.cons_ne_nil _ _))
    | snoc h' ho' =>
      obtain ⟨rfl, heq⟩ := List.append_inj' hos rfl
      cases heq
      have hsame := (ho'.2 _ ho.part).eq_of_length_le (ho.all.2 _ ho'.1).length_le
      rw [ih h', hsame]

theorem Told.prefix_of_whole {os : List Opening} {l l' : List Trade} (h : Told os l)
    (h' : Whole os l') : l <+: l' := by
  cases h with
  | ended h => rw [h.eq_of_whole h']
  | @within os o l₁ l₂ h ho =>
    generalize hos : os ++ [o] = os' at h'
    cases h' with
    | nil => exact absurd hos (List.append_ne_nil_of_right_ne_nil _ (List.cons_ne_nil _ _))
    | snoc h' ho' =>
      obtain ⟨rfl, heq⟩ := List.append_inj' hos rfl
      cases heq
      rw [h.eq_of_whole h']
      exact (List.prefix_append_right_inj _).2 (ho'.2 _ ho)

/-- The calls of the venue take the grants of the gate, one each and at the same time. -/
theorem course_of_history {h : List (Incident (Timed Connector) Event)} {t t' : Timed Connector}
    (hist : History happens t h t') (hcalls : t.world.calls = []) :
    t.world.gate.Course t.now (t'.world.calls.map Prod.fst) t'.now t'.world.gate := by
  induction hist with
  | nil =>
    rw [hcalls]
    exact .refl
  | snoc _ he ih =>
    obtain ⟨new, hgoes | ⟨hnew, hgate⟩, hcalls'⟩ := paces_of_happens he
    · rw [hcalls']
      exact (ih.goes hgoes).later (now_le_of_happens he)
    · rw [hcalls', hgate, hnew, List.append_nil]
      exact ih.later (now_le_of_happens he)

/-- What is seen of a stream after a history. -/
structure Tells (feed : Feed) (delay id : Nat) (h : List (Incident (Timed Connector) Event))
    (t : Timed Connector) (s : Stream) : Prop where
  /-- The trades accepted into the stream are those that its openings offered one after another:
  each up to the end of its connection, and the last up to some item. -/
  told : Told (openingsOf feed s.symbol (turns id h)) (accepted id h)
  /-- The consumer received the first of them. -/
  first : received id h <+: accepted id h
  whole : ∀ l, Whole (openingsOf feed s.symbol (turns id h)) l → received id h <+: l
  /-- The others wait in the queue, in order, as long as the consumer is there. -/
  queued : s.queue.closed = false → accepted id h = received id h ++ s.queue.items
  bounded : s.queue.items.length ≤ s.queue.capacity
  /-- An opening is followed by an end, and an end by an opening, after the delay. -/
  alternates : Alternates delay (turns id h)
  increasing : (numbers (turns id h)).Pairwise (· < ·)
  /-- Each opening is the call of the venue of its number. -/
  called : ∀ time k, (time, .opened k) ∈ turns id h →
    (Connector.openings? t.world.calls)[k]? = some (time, s.symbol)
  alone : (∀ i ≠ id, t.world.stream? i = none) →
    numbers (turns id h) = List.range (Connector.openings? t.world.calls).length

theorem tells_of_history {config : Config} {server : Http.Server} {feed : Feed} {c : Connector}
    {start id : Nat} {h : List (Incident (Timed Connector) Event)} {t : Timed Connector}
    {s : Stream} (hc : Connector.new config server feed = .ok c)
    (hist : History happens ⟨start, c⟩ h t) (hs : t.world.stream? id = some s) :
    Tells feed c.reconnectDelay id h t s := by
  have hfound := found_of_history hc hist
  have hdelay := hfound.ledger.reconnectDelay (found_of_new start hc).ledger
  have htrail := hfound.present id s hs
  have htold := htrail.standing.told
  exact
    { told := htold
      first := htrail.behind
      whole := fun l hl => htrail.behind.trans (htold.prefix_of_whole hl)
      queued := htrail.kept
      bounded := htrail.bounded.2
      alternates := hdelay ▸ htrail.alternates
      increasing := htrail.increasing
      called := htrail.logged
      alone := by
        intro halone
        rw [hfound.ledger.counted]
        exact hfound.numbers_of_alone hs halone }

/-- The streams of a new connector, whatever happens to it:

* each tells what its openings offer, up to a moment;
* the calls of the venue take the grants of the gate, one each and at the same time;
* without its consumer a stream accepts no trade, and opens the feed once more at most;
* with a consumer that stays and goes on to take trades, each end is followed by an opening, and of
  a finite feed all trades are received. -/
theorem stream_tells_feed {config : Config} {server : Http.Server} {feed : Feed} {c : Connector}
    (start : Nat) (hc : Connector.new config server feed = .ok c) :
    (∀ h t id s, History happens ⟨start, c⟩ h t → t.world.stream? id = some s →
      Tells feed c.reconnectDelay id h t s) ∧
    (∃ l, Limiter.new config.rateLimit (.ofSeconds config.rateWindowSeconds.toNat) = .ok l ∧
      ∀ h t, History happens ⟨start, c⟩ h t →
        (Gate.new l).Course start (t.world.calls.map Prod.fst) t.now t.world.gate) ∧
    (∀ h₁ t₁ h₂ t₂ id s, History happens ⟨start, c⟩ h₁ t₁ → t₁.world.stream? id = some s →
      s.queue.closed = true → History happens t₁ h₂ t₂ →
        accepted id h₂ = [] ∧
        (0 < c.reconnectDelay → Prompt id h₂ → (numbers (turns id h₂)).length ≤ 1)) ∧
    (∀ id t e, t 0 = ⟨start, c⟩ → Fair id t e →
      (∀ i time, (turns id (incidents t e i)).getLast? = some (time, .ended) →
        ∃ j again k, i ≤ j ∧ time + c.reconnectDelay ≤ again ∧
          turns id (incidents t e j) = turns id (incidents t e i) ++ [(again, .opened k)]) ∧
      ∀ i s, (t i).world.stream? id = some s →
        ((∀ k f, (feed.opening k s.symbol).frames = some f → ∃ m, f.EndsAt m) →
          ∀ n, ∃ j, i ≤ j ∧ n ≤ (numbers (turns id (incidents t e j))).length) ∧
        ∀ n, feed.Finite s.symbol n →
          ∃ k, i ≤ k ∧ ∀ j, k ≤ j →
            Whole (openingsOf feed s.symbol (turns id (incidents t e j)))
              (received id (incidents t e j))) := by
  have hfound₀ : Found config feed [] ⟨start, c⟩ := found_of_new start hc
  refine ⟨fun h t id s hist hs => tells_of_history hc hist hs, ?_, ?_, ?_⟩
  · obtain ⟨l, hl, rfl⟩ := new_eq hc
    exact ⟨l, hl, fun h t hist => course_of_history hist rfl⟩
  · intro h₁ t₁ h₂ t₂ id s hist₁ hs hclosed hist₂
    refine ⟨(accepted_of_closed hist₂ hs hclosed).1, fun hpos hprompt => ?_⟩
    rw [hfound₀.ledger.reconnectDelay (found_of_history hc hist₁).ledger] at hpos
    exact numbers_of_closed hist₂ hs hclosed hpos hprompt
  · intro id t e hstart hfair
    have hlive := hfair.live hc hstart
    refine ⟨?_, fun i s hs => ⟨hlive.opens_for_ever hs, fun n hfinite => hlive.delivers hs hfinite⟩⟩
    intro i time hlast
    rw [hfound₀.ledger.reconnectDelay (hlive.found i).ledger]
    exact hlive.opens_after_end hlast

/-! ## A connection that fails after one trade -/

namespace Sample

def trade : Trade :=
  ⟨1, "BTCUSDT", 7, (Decimal.ofUnits? 1000 1).getD .zero, (Decimal.ofUnits? 1 0).getD .zero, 1,
    false⟩

def frame : String :=
  "\x7b\"e\":\"trade\",\"E\":1,\"s\":\"BTCUSDT\",\"t\":7,\"p\":\"100.0\",\"q\":\"1\",\"T\":1," ++
    "\"m\":false\x7d"

/-- One trade and a failure; then a connection that is silent. -/
def feed : Feed :=
  .ofList [⟨0, some (.ofList [.text frame, .failure] false)⟩, ⟨0, some (.ofList [] false)⟩] .refused

/-- One call a second. -/
def config : Config :=
  { Config.default with reconnectDelayMillis := 50, rateLimit := 1, rateWindowSeconds := 1 }

def connector : Connector :=
  ⟨config, .new ⟨1, 1000000000, [], by decide, Span.second_pos⟩, .new "" [], feed, 0, [], [], 0, [],
    none⟩

/-- The trade is received, the connection fails, and a second passes. -/
def failing : List Event :=
  [.openStream "BTCUSDT", .move (.stream 0), .move (.stream 0), .move (.stream 0),
    .move (.stream 0), .receive 0, .move (.stream 0), .wait 1000000000]

/-- The stream is opened again. -/
def reopening : List Event := [.move (.stream 0), .move (.stream 0), .move (.stream 0)]

def isWait : Event → Bool
  | .wait _ => true
  | _ => false

/-- What the schedule comes to with the consumer. -/
theorem replay_reopening : (History.replay happens (failing ++ reopening) ⟨0, connector⟩).map
    (fun r => ((r.2.world.stream? 0).isSome, r.2.world.isStill, turns 0 r.1, received 0 r.1)) =
      some (true, true, [(0, .opened 0), (0, .ended), (1000000000, .opened 1)], [trade]) := by
  decide +kernel

/-- And when the consumer goes before the stream is opened again. -/
theorem replay_closed : (History.replay happens (failing ++ [Event.drop 0]) ⟨0, connector⟩).bind
    (fun r₁ => (History.replay happens reopening r₁.2).map fun r₂ =>
      ((r₁.2.world.stream? 0).map (·.queue.closed), r₂.1.any (isWait ·.event), turns 0 r₂.1)) =
        some (some true, false, [(1000000000, .opened 1)]) := by
  decide +kernel

theorem finite (symbol : String) : feed.Finite symbol 2 := by
  refine ⟨fun k hk f hf => ?_, fun k hk l hl => ?_⟩
  · match k, hk with
    | 0, _ => cases hf; exact ⟨2, rfl⟩
    | 1, _ => cases hf; exact ⟨0, rfl⟩
  · obtain ⟨d, rfl⟩ := Nat.exists_eq_add_of_le' hk
    exact (Opening.part_of_none rfl).1 hl

end Sample

/-- The second connection is opened a second after the first, when there is a grant again, and the
consumer has the trade for good. A consumer that goes before that leaves one more opening. -/
theorem stream_tells_feed_after_failure :
    Connector.new Sample.config (.new "" []) Sample.feed = .ok Sample.connector ∧
      (∃ t e s, t 0 = ⟨0, Sample.connector⟩ ∧ Fair 0 t e ∧ (t 11).world.stream? 0 = some s ∧
        turns 0 (incidents t e 11) = [(0, .opened 0), (0, .ended), (1000000000, .opened 1)] ∧
        received 0 (incidents t e 11) = [Sample.trade] ∧
        ∃ k, 11 ≤ k ∧ ∀ j, k ≤ j →
          Whole (openingsOf Sample.feed s.symbol (turns 0 (incidents t e j)))
            (received 0 (incidents t e j))) ∧
      ∃ h₁ t₁ h₂ t₂, History happens ⟨0, Sample.connector⟩ h₁ t₁ ∧ History happens t₁ h₂ t₂ ∧
        turns 0 h₂ = [(1000000000, .opened 1)] ∧ accepted 0 h₂ = [] ∧
        (numbers (turns 0 h₂)).length ≤ 1 := by
  have hc : Connector.new Sample.config (.new "" []) Sample.feed = .ok Sample.connector := rfl
  obtain ⟨-, -, hclosing, hfair⟩ := stream_tells_feed 0 hc
  refine ⟨hc, ?_, ?_⟩
  · obtain ⟨⟨h, t₁⟩, hr, heq⟩ := Option.map_eq_some_iff.1 Sample.replay_reopening
    simp only [Prod.mk.injEq] at heq
    obtain ⟨hthere, hstill, hturns, hreceived⟩ := heq
    obtain ⟨t, e, hf, hstart, hinc, hend⟩ :=
      exists_fair 0 hr (by simp [Sample.failing, Sample.reopening]) hstill
    obtain ⟨s, hs⟩ := Option.isSome_iff_exists.1 hthere
    have hlength : (Sample.failing ++ Sample.reopening).length = 11 := rfl
    rw [hlength] at hinc hend
    rw [← hend] at hs
    refine ⟨t, e, s, hstart, hf, hs, hinc ▸ hturns, hinc ▸ hreceived, ?_⟩
    exact ((hfair 0 t e hstart hf).2 11 s hs).2 2 (Sample.finite s.symbol)
  · obtain ⟨⟨h₁, t₁⟩, hr₁, heq⟩ := Option.bind_eq_some_iff.1 Sample.replay_closed
    obtain ⟨⟨h₂, t₂⟩, hr₂, heq⟩ := Option.map_eq_some_iff.1 heq
    simp only [Prod.mk.injEq] at heq
    obtain ⟨hclosed, hnowait, hturns⟩ := heq
    obtain ⟨s, hs, hclosed⟩ := Option.map_eq_some_iff.1 hclosed
    have hist₁ := History.of_replay hr₁
    have hist₂ := History.of_replay hr₂
    have hprompt : Prompt 0 h₂ := by
      intro x hx time s hevent
      rw [List.any_eq_false] at hnowait
      exact absurd (by rw [hevent]; rfl) (hnowait x hx)
    obtain ⟨haccepted, hfew⟩ := hclosing h₁ t₁ h₂ t₂ 0 s hist₁ hs hclosed hist₂
    exact ⟨h₁, t₁, h₂, t₂, hist₁, hist₂, hturns, haccepted, hfew (by decide) hprompt⟩

end Binance
end MarketFeed
