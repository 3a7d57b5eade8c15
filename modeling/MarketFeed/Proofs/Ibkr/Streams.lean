import MarketFeed.Proofs.Ibkr.Waiting

/-!
# MarketFeed.Proofs.Ibkr.Streams

No stream leaves a request for market data behind.

* `Orderly` — what is known of the streams of a connector and of its gateway after a history.
* `sessions_cancelled` — whatever happens to a new connector: the sessions of its streams come one
  after another, each is cancelled once, and each that is retried is followed by a disconnect.
-/

namespace MarketFeed
namespace Ibkr

/-- What is known of the streams of a connector and of its gateway after a history. -/
structure Orderly (h : List (Incident (Timed Connector) Event)) (t : Timed Connector) : Prop where
  /-- The gateway logs what streams do, and what calls ask for, which is no market data. -/
  logged : ∀ x ∈ h, Logged x
  /-- One at a time calls to connect, and only while there is no connection. -/
  dials : ∀ x ∈ h, (x.before.now, GatewayCall.connect) ∈
      x.after.world.gateway.calls.drop x.before.world.gateway.calls.length →
    ∃ id, (x.event = .move (.stream id) ∨ x.event = .move (.call id)) ∧
      x.before.world.dialLock.heldBy id = true ∧
      (Unbidden h → x.before.world.gateway.isConnected = false)
  /-- What each stream has done are sessions, one after another. -/
  trails : ∀ id s, t.world.stream? id = some s → Trail s (deeds id h)
  /-- Each request for market data that was granted is the business of its stream until it is
  cancelled. -/
  granted : ∀ id s l₁ l₂, t.world.stream? id = some s →
    deeds id h = l₁ ++ Deed.answered true :: l₂ → Granted s.contract s.stage l₂

theorem orderly_of_history {config : Config} {gateway : Gateway} {timeOfDay : Nat → Instant}
    {c : Connector} {start : Nat} {h : List (Incident (Timed Connector) Event)}
    {t : Timed Connector} (hc : Connector.new config gateway timeOfDay = .ok c)
    (hist : History happens ⟨start, c⟩ h t) : Orderly h t where
  logged _ hx := logged_of_happens (hist.happens_of_mem hx)
  dials := dials_alone hc hist
  trails := (trails_of_history hc hist).present
  granted id s l₁ l₂ hs hds := by
    have hlife := ((trails_of_history hc hist).present id s hs).lifecycle
    rw [hds] at hlife
    exact hlife.granted

/-- The streams of a new connector, whatever its gateway does, and whatever else happens to it:

* what a stream does are sessions, one after another; a request for market data that was granted is
  cancelled before anything else is done;
* in a session each call is made once at most, the cancelling is the last one, and nothing is
  disconnected;
* after the cancelling of a session that ended because the consumer has gone, nothing is done;
* when every task is treated justly, a session that has ended is cancelled, and the gateway is
  disconnected if the consumer has not gone. -/
theorem sessions_cancelled {config : Config} {gateway : Gateway} {timeOfDay : Nat → Instant}
    {c : Connector} (start : Nat) (hc : Connector.new config gateway timeOfDay = .ok c) :
    (∀ h t, History happens ⟨start, c⟩ h t → Orderly h t) ∧
    (∀ contract gone session, Session contract gone session →
      (session.filterMap Deed.call?).Nodup ∧
        session.getLast? = some (.calls (.cancel contract)) ∧ .calls .disconnect ∉ session) ∧
    (∀ h t h' t' id s, History happens ⟨start, c⟩ h t → t.world.stream? id = some s →
      History happens t h' t' →
        (s.stage = .cancelling true →
          ∃ s', t'.world.stream? id = some s' ∧ Leaving s.contract s'.stage (deeds id h')) ∧
        (s.stage = .ended →
          ∃ s', t'.world.stream? id = some s' ∧ s'.stage = .ended ∧ deeds id h' = [])) ∧
    ∀ t e, Fair t e → t 0 = ⟨start, c⟩ → ∀ i id s gone,
      (t i).world.stream? id = some s → s.stage = .cancelling gone →
        ∃ j, i ≤ j ∧ deeds id (incidents t e j) = deeds id (incidents t e i) ++
          Deed.calls (.cancel s.contract) :: if gone then [] else [Deed.calls .disconnect] := by
  refine ⟨fun h t hist => orderly_of_history hc hist, fun _ _ _ hsession => hsession.once, ?_, ?_⟩
  · intro h t h' t' id s _ hs hist'
    exact ⟨left_of_history hist' hs, ended_of_history hist' hs⟩
  · intro t e hfair hstart i id s gone hs hst
    exact (hfair.live hc hstart).cancels hs hst

/-! ## Three sessions -/

namespace Sample

def contract : Contract := .future "ES" "CME" "USD"

/-- The first call to connect fails, and the first request for market data. -/
def behaviour : Behaviour where
  connectDelay := 0
  connectFailure n := if n = 0 then some (.vendor "no") else none
  marketFailure n := if n = 0 then some (.vendor "no") else none
  history _ := .ok []
  eventCapacity := 16

def connector : Connector :=
  ⟨.default, .new behaviour false, .new ⟨45, 1000000000, [], by decide, Span.second_pos⟩, .free, [],
    [], 0, fun _ => default⟩

/-- The stream goes on. -/
def goesOn : Event := .move (.stream 0)

/-- A session that is not connected, one whose request is denied, and one whose consumer goes. -/
def leaving : List Event :=
  Event.openStream contract :: List.replicate 4 goesOn ++ Event.wait 5000000000 ::
    List.replicate 6 goesOn ++ Event.wait 10000000000 ::
    List.replicate 5 goesOn ++ [Event.drop 0, .move (.notice 0)]

/-- What the stream has done when its consumer has gone. -/
def done : List Deed :=
  [.finds false, .calls .connect, .connected false, .calls (.cancel contract), .calls .disconnect,
    .finds false, .calls .connect, .connected true, .calls (.marketData contract), .answered false,
    .calls (.cancel contract), .calls .disconnect,
    .finds false, .calls .connect, .connected true, .calls (.marketData contract), .answered true]

def isLeaving (s : Stream) : Bool :=
  match s.stage with
  | .cancelling gone => gone
  | _ => false

theorem replay_leaving : (History.replay happens leaving ⟨0, connector⟩).bind (fun r =>
    (History.replay happens [goesOn] r.2).map fun r' =>
      ((r.2.world.stream? 0).map fun s => (s.contract, isLeaving s), deeds 0 r.1, deeds 0 r'.1,
        r'.2.world.isOver)) =
    some (some (contract, true), done, [.calls (.cancel contract)], true) := by
  decide +kernel

/-- The gateway does nothing by itself. -/
theorem unbidden {h : List (Incident (Timed Connector) Event)}
    {t : Timed Connector} (hr : History.replay happens leaving ⟨0, connector⟩ = some (h, t)) :
    Unbidden h := by
  intro x hx g hevent
  have hmem : x.event ∈ leaving := by
    rw [← History.replay_events hr]
    exact List.mem_map_of_mem hx
  rw [hevent] at hmem
  simp [leaving, goesOn] at hmem

end Sample

/-- Two sessions are retried. In the third the request is granted, and cancelled because the
consumer goes; each call to connect is made without a connection. -/
theorem sessions_cancelled_thrice :
    Connector.new .default (.new Sample.behaviour false) (fun _ => default) =
        .ok Sample.connector ∧
      ∃ h t h' t' s s', History happens ⟨0, Sample.connector⟩ h t ∧ History happens t h' t' ∧
        t.world.stream? 0 = some s ∧ deeds 0 h = Sample.done ∧ s.stage = .cancelling true ∧
        Trail s Sample.done ∧ Granted s.contract s.stage [] ∧
        (∀ x ∈ h, (x.before.now, GatewayCall.connect) ∈
            x.after.world.gateway.calls.drop x.before.world.gateway.calls.length →
          x.before.world.gateway.isConnected = false) ∧
        t'.world.stream? 0 = some s' ∧
        Leaving s.contract s'.stage [.calls (.cancel Sample.contract)] ∧
        ∃ t₀ e i j, Fair t₀ e ∧ t₀ 0 = ⟨0, Sample.connector⟩ ∧ i ≤ j ∧
          deeds 0 (incidents t₀ e i) = Sample.done ∧
          deeds 0 (incidents t₀ e j) = Sample.done ++ [Deed.calls (.cancel Sample.contract)] := by
  have hc : Connector.new .default (.new Sample.behaviour false) (fun _ => default) =
    .ok Sample.connector := rfl
  obtain ⟨horderly, -, hleft, hfair⟩ := sessions_cancelled 0 hc
  obtain ⟨⟨h, t⟩, hr, hrest⟩ := Option.bind_eq_some_iff.1 Sample.replay_leaving
  obtain ⟨⟨h', t'⟩, hr', heq⟩ := Option.map_eq_some_iff.1 hrest
  simp only [Prod.mk.injEq] at heq
  obtain ⟨hstream, hdone, hcancel, hover⟩ := heq
  obtain ⟨s, hs, hleaving⟩ := Option.map_eq_some_iff.1 hstream
  simp only [Prod.mk.injEq] at hleaving
  obtain ⟨hcontract, hleaving⟩ := hleaving
  have hst : s.stage = .cancelling true := by
    unfold Sample.isLeaving at hleaving
    split at hleaving
    · rename_i hst
      rw [hst, hleaving]
    · cases hleaving
  have hist := History.of_replay hr
  have hist' := History.of_replay hr'
  have hkept := horderly h t hist
  obtain ⟨s', hs', hleaves⟩ := (hleft h t h' t' 0 s hist hs hist').1 hst
  refine ⟨hc, h, t, h', t', s, s', hist, hist', hs, hdone, hst, hdone ▸ hkept.trails 0 s hs,
    hkept.granted 0 s (Sample.done.dropLast) [] hs hdone, fun x hx hconnect => ?_, hs',
    hcancel ▸ hleaves, ?_⟩
  · obtain ⟨_, _, _, hnone⟩ := hkept.dials x hx hconnect
    exact hnone (Sample.unbidden hr)
  · obtain ⟨t₂, e₂, hf₂, hstart₂⟩ := exists_fair t'.now hover
    obtain ⟨t₁, e₁, hf₁, hstart₁, -, -⟩ := hf₂.of_replay hr' hstart₂
    obtain ⟨t₀, e, hf, hstart, hinc, hnow⟩ := hf₁.of_replay hr hstart₁
    rw [← hnow] at hs
    obtain ⟨j, hj, hdeeds⟩ := hfair t₀ e hf hstart Sample.leaving.length 0 s true hs hst
    rw [hinc, hdone, hcontract] at hdeeds
    exact ⟨t₀, e, _, j, hf, hstart, hj, hinc ▸ hdone, hdeeds⟩

end Ibkr
end MarketFeed
