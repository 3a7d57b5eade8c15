import MarketFeed.Proofs.Binance.Stream
import MarketFeed.Proofs.Ibkr.Grants
import MarketFeed.Proofs.Time.Span

/-!
# MarketFeed.Proofs.Pacing.Calls

Every call of a venue is paced.

* `FewInWindow`, `Course.few` — no window sees more than so many calls.
* `venue_calls_paced` — the calls that a connector makes, whatever happens to it, take grants of its
  limiter, one each and at the same time.
-/

namespace MarketFeed

/-- No half-open window of the length `per` holds more than `rate` of some times. -/
def FewInWindow (rate per : Nat) (times : List Nat) : Prop :=
  ∀ start, (times.filter fun time => start ≤ time ∧ time < start + per).length ≤ rate

theorem Gate.Course.few {α : Type} [DecidableEq α] {l : Limiter} {start now : Nat}
    {grants : List Nat} {g : Gate α} (h : (Gate.new l).Course start grants now g)
    (hnew : l.recent = []) : FewInWindow l.rate l.per grants := by
  have haccounts := h.accounts hnew
  obtain ⟨hrate, hper⟩ := h.bounds
  have hspaced := haccounts.spaced
  rw [hrate, hper] at hspaced
  exact hspaced.length_filter_le haccounts.sorted

/-- The limiter of a connector that is to make at most so many calls in so many seconds. -/
theorem Limiter.new_of_seconds {rate : UInt32} {seconds : UInt64} (hr : 0 < rate)
    (hs : 0 < seconds) : ∃ l, Limiter.new rate (.ofSeconds seconds.toNat) = .ok l ∧
      l.rate = rate.toNat ∧ l.per = seconds.toNat * 1000000000 ∧ l.recent = [] := by
  have hpos : 0 < seconds.toNat := hs
  have hp : 0 < (Span.ofSeconds seconds.toNat).toNanos := by
    rw [Span.toNanos_ofSeconds seconds.toNat_lt]
    omega
  exact ⟨_, new_eq_ok hr hp, rfl, Span.toNanos_ofSeconds seconds.toNat_lt, rfl⟩

/-- A connector to either venue can be made with any rate and window. Whatever happens to it, its
calls of the venue, apart from disconnecting, take the grants of its one gate: each event grants
what the calls that come of it need, at their time, and nothing else. So no window sees more calls
than allowed, fetches, streams and their cleaning up taken together. -/
theorem venue_calls_paced :
    (∀ (config : Binance.Config) (server : Http.Server) (feed : Binance.Feed) (start : Nat),
      0 < config.rateLimit → 0 < config.rateWindowSeconds →
        ∃ l c, Limiter.new config.rateLimit (.ofSeconds config.rateWindowSeconds.toNat) = .ok l ∧
          Binance.Connector.new config server feed = .ok c ∧
          ∀ h t, History Binance.happens ⟨start, c⟩ h t →
            (∀ x ∈ h, Binance.Paces x.before.now x.before.world x.after.world) ∧
            (Gate.new l).Course start (t.world.calls.map Prod.fst) t.now t.world.gate ∧
            FewInWindow config.rateLimit.toNat (config.rateWindowSeconds.toNat * 1000000000)
              (t.world.calls.map Prod.fst)) ∧
    ∀ (config : Ibkr.Config) (gateway : Ibkr.Gateway) (timeOfDay : Nat → Instant) (start : Nat),
      0 < config.rateLimit → 0 < config.rateWindowSeconds →
        ∃ l c, Limiter.new config.rateLimit (.ofSeconds config.rateWindowSeconds.toNat) = .ok l ∧
          Ibkr.Connector.new config gateway timeOfDay = .ok c ∧
          ∀ h t, History Ibkr.happens ⟨start, c⟩ h t →
            (∀ x ∈ h, Ibkr.Paces x.before.now x.before.world x.after.world) ∧
            ∃ new, t.world.gateway.calls = gateway.calls ++ new ∧
              (Gate.new l).Course start (Ibkr.pacedTimes new) t.now t.world.gate ∧
              FewInWindow config.rateLimit.toNat (config.rateWindowSeconds.toNat * 1000000000)
                (Ibkr.pacedTimes new) := by
  constructor
  · intro config server feed start hr hs
    obtain ⟨l, hl, hrate, hper, hnone⟩ := Limiter.new_of_seconds hr hs
    have hc : Binance.Connector.new config server feed =
        .ok ⟨config, .new l, server, feed, 0, [], [], 0, [], none⟩ := by
      rw [Binance.Connector.new, hl]
    refine ⟨l, _, hl, hc, fun h t hist => ⟨fun x hx => ?_, ?_⟩⟩
    · exact Binance.paces_of_happens (hist.happens_of_mem hx)
    · have hcourse := Binance.course_of_history hist rfl
      exact ⟨hcourse, hrate ▸ hper ▸ hcourse.few hnone⟩
  · intro config gateway timeOfDay start hr hs
    obtain ⟨l, hl, hrate, hper, hnone⟩ := Limiter.new_of_seconds hr hs
    have hc : Ibkr.Connector.new config gateway timeOfDay =
        .ok ⟨config, gateway, .new l, .free, [], [], 0, timeOfDay⟩ := by
      rw [Ibkr.Connector.new, hl]
    refine ⟨l, _, hl, hc, fun h t hist => ?_⟩
    obtain ⟨hpaces, new, hcalls, hcourse⟩ := Ibkr.course_of_history hc hist
    exact ⟨hpaces, new, hcalls, hcourse, hrate ▸ hper ▸ hcourse.few hnone⟩

/-! ## One call a second -/

namespace Paced

def request : HistoryRequest := .latest .daily 1

def limiter : Limiter := ⟨1, 1000000000, [], Nat.one_pos, Span.second_pos⟩

def binance : Binance.Config :=
  { Binance.Config.default with rateLimit := 1, rateWindowSeconds := 1 }

def toBinance : Binance.Connector :=
  ⟨binance, .new limiter, .new "" [], .ofList [] .refused, 0, [], [], 0, [], none⟩

/-- A fetch comes while a stream is opened, and the first attempt to open it fails. -/
def opening : List Binance.Event :=
  [.openStream "BTCUSDT", .fetch "ETHUSDT" request, .move (.stream 0), .move (.stream 0),
    .wait 1000000000, .move (.fetch 1), .wait 6000000000, .move (.stream 0), .move (.stream 0)]

/-- What was called, and when. -/
theorem replay_opening : (History.replay Binance.happens opening ⟨0, toBinance⟩).map
    (fun r => r.2.world.calls) =
      some [(0, .opened "BTCUSDT"), (1000000000, .request "ETHUSDT"),
        (6000000000, .opened "BTCUSDT")] := by
  decide +kernel

def contract : Ibkr.Contract := .future "ES" "CME" "USD"

def ibkr : Ibkr.Config := { Ibkr.Config.default with rateLimit := 1 }

/-- There is no market data. -/
def gateway : Ibkr.Gateway :=
  .new ⟨0, fun _ => none, fun _ => some .notConnected, fun _ => .ok [], 16⟩ false

def toIbkr : Ibkr.Connector :=
  ⟨ibkr, gateway, .new limiter, .free, [], [], 0, fun _ => default⟩

/-- A fetch uses the connection that a stream has made. -/
def asking : List Ibkr.Event :=
  [.openStream contract, .call (.fetch contract request), .move (.stream 0), .move (.stream 0),
    .move (.stream 0), .move (.call 1), .wait 1000000000, .move (.stream 0), .wait 2000000000,
    .move (.call 1), .wait 3000000000, .move (.stream 0)]

theorem replay_asking : (History.replay Ibkr.happens asking ⟨0, toIbkr⟩).map
    (fun r => (r.2.world.gateway.calls.length, Ibkr.pacedTimes r.2.world.gateway.calls)) =
      some (5, [0, 1000000000, 2000000000, 3000000000]) := by
  decide +kernel

end Paced

/-- Both connectors may make one call a second. The one to Binance makes three, for a stream and a
fetch; the one to Interactive Brokers makes four for which it needs a grant, and disconnects. -/
theorem venue_calls_paced_each_second :
    0 < Paced.binance.rateLimit ∧ 0 < Paced.binance.rateWindowSeconds ∧
      0 < Paced.ibkr.rateLimit ∧ 0 < Paced.ibkr.rateWindowSeconds ∧
      (∃ h t, Binance.Connector.new Paced.binance (.new "" []) (.ofList [] .refused) =
          .ok Paced.toBinance ∧
        History Binance.happens ⟨0, Paced.toBinance⟩ h t ∧
        t.world.calls = [(0, .opened "BTCUSDT"), (1000000000, .request "ETHUSDT"),
          (6000000000, .opened "BTCUSDT")] ∧
        FewInWindow 1 1000000000 (t.world.calls.map Prod.fst)) ∧
      ∃ h t, Ibkr.Connector.new Paced.ibkr Paced.gateway (fun _ => default) = .ok Paced.toIbkr ∧
        History Ibkr.happens ⟨0, Paced.toIbkr⟩ h t ∧ t.world.gateway.calls.length = 5 ∧
        Ibkr.pacedTimes t.world.gateway.calls = [0, 1000000000, 2000000000, 3000000000] ∧
        FewInWindow 1 1000000000 (Ibkr.pacedTimes t.world.gateway.calls) := by
  have hpos : 0 < Paced.binance.rateLimit ∧ 0 < Paced.binance.rateWindowSeconds ∧
      0 < Paced.ibkr.rateLimit ∧ 0 < Paced.ibkr.rateWindowSeconds := by decide
  obtain ⟨hbr, hbs, hir, his⟩ := hpos
  obtain ⟨hbinance, hibkr⟩ := venue_calls_paced
  refine ⟨hbr, hbs, hir, his, ?_, ?_⟩
  · have hmade : Binance.Connector.new Paced.binance (.new "" []) (.ofList [] .refused) =
        .ok Paced.toBinance := rfl
    obtain ⟨l, c, -, hc, hpaced⟩ :=
      hbinance Paced.binance (.new "" []) (.ofList [] .refused) 0 hbr hbs
    obtain rfl := Except.ok.inj (hmade.symm.trans hc)
    obtain ⟨⟨h, t⟩, hr, hcalls⟩ := Option.map_eq_some_iff.1 Paced.replay_opening
    have hist := History.of_replay hr
    exact ⟨h, t, hmade, hist, hcalls, (hpaced h t hist).2.2⟩
  · have hmade : Ibkr.Connector.new Paced.ibkr Paced.gateway (fun _ => default) =
        .ok Paced.toIbkr := rfl
    obtain ⟨l, c, -, hc, hpaced⟩ := hibkr Paced.ibkr Paced.gateway (fun _ => default) 0 hir his
    obtain rfl := Except.ok.inj (hmade.symm.trans hc)
    obtain ⟨⟨h, t⟩, hr, heq⟩ := Option.map_eq_some_iff.1 Paced.replay_asking
    obtain ⟨hlength, htimes⟩ := Prod.mk.inj heq
    have hist := History.of_replay hr
    obtain ⟨-, new, hcalls, -, hfew⟩ := hpaced h t hist
    -- the gateway had not been called before
    have hnew : t.world.gateway.calls = new := hcalls
    exact ⟨h, t, hmade, hist, hlength, htimes, hnew ▸ hfew⟩

end MarketFeed
