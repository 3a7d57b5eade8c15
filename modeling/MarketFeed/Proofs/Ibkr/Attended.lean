import MarketFeed.Proofs.Ibkr.Accounts
import MarketFeed.Proofs.Ibkr.Waiting

/-!
# MarketFeed.Proofs.Ibkr.Attended

What must happen to a stream whose consumer stays and goes on to take its tickers.

* `Attended` — a fair and lawful history with such a consumer.
* `Watched` — such a history of a new connector, with what is known at each of its moments.
* `Watched.received_all` — what has entered the queue is taken.
* `At` — where the stream stands at a moment. `Watched.drains`, `Watched.catches_up` — it sends what
  it has read, and it reads what was sent.
* `Attended.of_replay`, `exists_attended` — a schedule after which nothing is left to do begins an
  attended history.
-/

namespace MarketFeed
namespace Ibkr

/-- A fair history in which the gateway changes by itself only in that its events grow, and the
consumer of a stream stays and takes tickers while there are any. -/
structure Attended (id : Nat) (t : Nat → Timed Connector) (e : Nat → Event) : Prop
    extends Fair t e where
  lawful : ∀ i g, e i = .change g → (t i).world.gateway.Grows g
  reads : ∀ i, ∃ j, i ≤ j ∧
    (e j = .receive id ∨ ∀ s, (t j).world.stream? id = some s → s.queue.items = [])
  stays : ∀ i, e i ≠ .drop id

/-- An attended history of a connector that was new at its start. -/
structure Watched (id : Nat) (t : Nat → Timed Connector) (e : Nat → Event) : Prop
    extends Attended id t e where
  accounts : ∀ i, Accounts (incidents t e i) (t i)
  opened : ∀ i s, (t i).world.stream? id = some s →
    s.queue.closed = false ∧ s.stage ≠ .cancelling true ∧ s.stage ≠ .ended

/-- At a moment the stream is in the session of a number, which receives the events from some
position on. -/
structure At (id : Nat) (t : Nat → Timed Connector) (e : Nat → Event) (contract : Contract)
    (n : Nat) (sub : Gateway.Subscription) (stage : Stage) (all : List Ticker) (i : Nat) :
    Prop where
  session : ∃ past last, visits id (incidents t e i) = past ++ [last] ∧ past.length = n ∧
    last.from? = some sub
  tickers : accepted id (incidents t e i) = all
  stream : ∃ s, (t i).world.stream? id = some s ∧ s.contract = contract ∧ s.stage = stage

section

variable {config : Config} {gateway : Gateway} {timeOfDay : Nat → Instant} {c : Connector}
  {start id n p : Nat} {t : Nat → Timed Connector} {e : Nat → Event} {i j : Nat} {s s' : Stream}
  {contract : Contract} {sub : Gateway.Subscription} {stage : Stage} {all rest : List Ticker}
  {events : Gateway.Subscription} {b : Broadcast (List Ticker)}

theorem Attended.lawful_incidents (ha : Attended id t e) (n : Nat) : Lawful (incidents t e n) := by
  intro x hx
  obtain ⟨i, -, rfl⟩ := List.mem_map.1 hx
  exact ha.lawful i

/-- The consumer is there at all times. -/
theorem Attended.opened (ha : Attended id t e)
    (hc : Connector.new config gateway timeOfDay = .ok c) (hstart : t 0 = ⟨start, c⟩) (i : Nat)
    (hs : (t i).world.stream? id = some s) : s.queue.closed = false := by
  induction i generalizing s with
  | zero =>
    obtain ⟨l, -, rfl⟩ := new_eq hc
    rw [hstart] at hs
    cases hs
  | succ i ih =>
    cases hs₀ : (t i).world.stream? id with
    | some s₀ =>
      obtain ⟨s₁, hs₁, htreats⟩ := treats_of_happens (ha.endless.goes i) hs₀
      cases hs.symm.trans hs₁
      have hopen := ih hs₀
      cases htreats with
      | goes he hg =>
        rcases hg.queue with ⟨ended, hqueue⟩ | ⟨-, -, ticker, hqueue⟩ <;> rwa [hqueue]
      | notices he hn =>
        obtain ⟨ended, hqueue⟩ := hn.queue
        rwa [hqueue]
      | takes he => exact hopen
      | leaves he => exact absurd he (ha.stays i)
      | stays he hr => exact hopen
    | none =>
      cases fares_of_happens (ha.endless.goes i) id with
      | begins _ _ hs₁ =>
        cases hs.symm.trans hs₁
        rfl
      | stays hsame => cases hs.symm.trans (hsame.trans hs₀)
      | goes hs₁ | notices hs₁ | serves hs₁ => cases hs₀.symm.trans hs₁

theorem Attended.watched (ha : Attended id t e)
    (hc : Connector.new config gateway timeOfDay = .ok c) (hevents : gateway.events ≠ [])
    (hstart : t 0 = ⟨start, c⟩) : Watched id t e where
  toAttended := ha
  accounts i :=
    accounts_of_history hc hevents (hstart ▸ ha.endless.history i) (ha.lawful_incidents i)
  opened i s hs := by
    have hopen := ha.opened hc hstart i hs
    have htrail := (trails_of_history hc (hstart ▸ ha.endless.history i)).present id s hs
    have hstays : ¬ (s.stage = .cancelling true ∨ s.stage = .ended) := fun hover =>
      Bool.noConfusion (hopen.symm.trans (htrail.gone hover))
    exact ⟨hopen, not_or.1 hstays⟩

theorem readEvent_ne_none {c : Connector} (h : c.gateway.hear events ≠ .empty) :
    c.readEvent s events ≠ none := by
  unfold Connector.readEvent
  split
  · exact Option.some_ne_none _
  · exact Option.some_ne_none _
  · exact Option.some_ne_none _
  · rename_i hempty
    exact absurd hempty h

theorem Notices.closed {c c' : Connector} (h : Notices c s s' c') : s.queue.closed = true := by
  cases h <;> assumption

namespace Watched

variable (hw : Watched id t e)
include hw

theorem grows_of_le (hij : i ≤ j) : (t i).world.gateway.Grows (t j).world.gateway := by
  induction j, hij using Nat.le_induction with
  | base => exact .of_eq rfl
  | succ j _ ih => exact ih.trans (grows_of_happens (hw.endless.goes j) (hw.lawful j))

/-- A stream is there for good. -/
theorem stream?_of_le (hij : i ≤ j) (hs : (t i).world.stream? id = some s) :
    ∃ s', (t j).world.stream? id = some s' := by
  induction j, hij using Nat.le_induction with
  | base => exact ⟨s, hs⟩
  | succ j _ ih =>
    obtain ⟨s₁, hs₁⟩ := ih
    obtain ⟨s', hs', -⟩ := treats_of_happens (hw.endless.goes j) hs₁
    exact ⟨s', hs'⟩

theorem waiting (hs : (t i).world.stream? id = some s) :
    accepted id (incidents t e i) = received id (incidents t e i) ++ s.queue.items :=
  ((hw.accounts i).present id s hs).waiting (hw.opened i s hs).1

/-! ## The consumer -/

/-- What has entered the queue up to some moment is taken, from some moment on. -/
theorem received_all (hs : (t i).world.stream? id = some s) :
    ∃ j, i ≤ j ∧ accepted id (incidents t e i) <+: received id (incidents t e j) := by
  suffices h : ∀ d k, i ≤ k →
      (accepted id (incidents t e i)).length - (received id (incidents t e k)).length ≤ d →
      ∃ j, i ≤ j ∧ accepted id (incidents t e i) <+: received id (incidents t e j) from
    h _ i (Nat.le_refl i) (Nat.le_refl _)
  intro d
  -- the consumer takes them one after another
  induction d with
  | zero =>
    intro k hk hd
    obtain ⟨s', hs'⟩ := hw.stream?_of_le hk hs
    have hbehind := ((hw.accounts k).present id s' hs').behind
    have hbefore : accepted id (incidents t e i) <+: accepted id (incidents t e k) :=
      (incidents_mono hk).flatMap _
    exact ⟨k, hk, List.prefix_of_prefix_length_le hbefore hbehind (by omega)⟩
  | succ d ih =>
    intro k hk hd
    obtain ⟨m, hm, hread⟩ := hw.reads k
    obtain ⟨s', hs'⟩ := hw.stream?_of_le (show i ≤ m by omega) hs
    have hkeeps : (received id (incidents t e k)).length ≤ (received id (incidents t e m)).length :=
      ((incidents_mono hm).flatMap _).length_le
    have hbefore : accepted id (incidents t e i) <+: accepted id (incidents t e m) :=
      (incidents_mono (by omega)).flatMap _
    have hwaiting := hw.waiting hs'
    rcases hread with he | hempty
    · cases hitems : s'.queue.items with
      | nil =>
        rw [hitems, List.append_nil] at hwaiting
        exact ⟨m, by omega, hwaiting ▸ hbefore⟩
      | cons ticker items =>
        refine ih (m + 1) (by omega) ?_
        rw [incidents_succ, received_concat, he, receivedAt_receive hs', hitems,
          List.length_append]
        simp only [List.take_succ_cons, List.take_zero, List.length_singleton]
        omega
    · rw [hempty s' hs', List.append_nil] at hwaiting
      exact ⟨m, by omega, hwaiting ▸ hbefore⟩

/-- When no ticker enters the queue any more, it becomes empty. -/
theorem queue_empties (hs : (t i).world.stream? id = some s)
    (hall : ∀ j, i ≤ j → accepted id (incidents t e j) = all) :
    ∃ k, i ≤ k ∧ ∀ j, k ≤ j → ∀ s, (t j).world.stream? id = some s → s.queue.items = [] := by
  obtain ⟨k, hk, hgot⟩ := hw.received_all hs
  refine ⟨k, hk, fun j hj s' hs' => ?_⟩
  have hwaiting := congrArg List.length (hw.waiting hs')
  have hkeeps := (hgot.trans ((incidents_mono hj).flatMap (receivedAt id))).length_le
  rw [hall i (Nat.le_refl i)] at hkeeps
  rw [hall j (by omega), List.length_append] at hwaiting
  have hlength : all.length ≤ (received id (incidents t e j)).length := hkeeps
  exact List.length_eq_zero_iff.1 (by omega)

/-! ## The stream -/

/-- The last session of the stream where it stands. -/
theorem underway (h : At id t e contract n sub stage all i) :
    ∃ past last, visits id (incidents t e i) = past ++ [last] ∧ past.length = n ∧
      last.from? = some sub ∧ Underway contract (t i).world.gateway stage last := by
  obtain ⟨⟨past, last, hvisits, hlength, hfrom⟩, -, s, hs, rfl, rfl⟩ := h
  have hsessions := ((hw.accounts i).present id s hs).sessions
  rw [hvisits] at hsessions
  generalize hall : past ++ [last] = vs at hsessions
  cases hsessions with
  | mk hpast hlast =>
    obtain ⟨-, heq⟩ := List.append_inj' hall rfl
    cases heq
    exact ⟨past, last, hvisits, hlength, hfrom, hlast⟩

/-- The stream stands where it is until it goes on. -/
theorem at_succ (h : At id t e contract n sub stage all i) (he : e i ≠ .move (.stream id)) :
    At id t e contract n sub stage all (i + 1) := by
  obtain ⟨⟨past, last, hvisits, hlength, hfrom⟩, hall, s, hs, hcontract, hst⟩ := h
  obtain ⟨s', hs', htreats⟩ := treats_of_happens (hw.endless.goes i) hs
  have hrecord := htreats.recordAt he hs hs' (List.append_ne_nil_of_right_ne_nil past
    (List.cons_ne_nil last []))
  refine ⟨⟨past, last, ?_, hlength, hfrom⟩, ?_, s', hs', ?_⟩
  · rw [incidents_succ, visits_concat, hvisits, hrecord]
  · rw [incidents_succ, accepted_concat, hall, acceptedAt_of_some hs hs',
      List.drop_eq_nil_of_le (htreats.idle he).2.2, List.append_nil]
  · cases htreats with
    | goes hgo => exact absurd hgo he
    | notices _ hn => exact Bool.noConfusion ((hw.opened i s hs).1.symm.trans hn.closed)
    | takes | leaves | stays => exact ⟨hcontract, hst⟩

/-- Where the stream stands when it has gone on within its session. -/
theorem at_goes (h : At id t e contract n sub stage all i) (he : e i = .move (.stream id)) :
    ∃ s s', (t i).world.stream? id = some s ∧ s.stage = stage ∧
      StreamGoes (t i).now (t i).world s s' (t (i + 1)).world ∧
      (renews s s' = false → At id t e contract n sub s'.stage
        (all ++ s'.queue.items.drop s.queue.items.length) (i + 1)) := by
  obtain ⟨⟨past, last, hvisits, hlength, hfrom⟩, hall, s, hs, hcontract, hst⟩ := h
  obtain ⟨s', hs', htreats⟩ := treats_of_happens (hw.endless.goes i) hs
  cases htreats with
  | goes _ hg =>
    refine ⟨s, s', hs, hst, hg, fun hrenews => ?_⟩
    have hrecord : recordAt id (past ++ [last]) ⟨t i, e i, t (i + 1)⟩ = _ :=
      recordAt_concat ((beginsAt_of_some hs hs').trans hrenews)
    rw [← hvisits, ← visits_concat, ← incidents_succ] at hrecord
    refine ⟨⟨past, _, hrecord, hlength, ?_⟩, ?_, s', hs', hg.frame.2.1.trans hcontract, rfl⟩
    · simp only [Visit.append, hfrom, Option.some_or]
    · rw [incidents_succ, accepted_concat, hall, acceptedAt_of_some hs hs']
  | notices hevent | takes hevent | leaves hevent => cases he.symm.trans hevent
  | stays hevent => exact absurd he hevent

/-- Where the stream can go on from some moment on, it does. -/
theorem goes_on (h : At id t e contract n sub stage all i)
    (hready : (∀ j, i ≤ j → At id t e contract n sub stage all j) → ∃ k, ∀ j, k ≤ j → ∀ s,
      (t j).world.stream? id = some s → s.stage = stage →
        (t j).world.goOn (t j).now s ≠ none) :
    ∃ j, i ≤ j ∧ At id t e contract n sub stage all j ∧ e j = .move (.stream id) := by
  refine (hw.just (.stream id)).comes h (fun j _ hat he => hw.at_succ hat he) fun hlast => ?_
  obtain ⟨k, hk⟩ := hready hlast
  refine ⟨max i k, fun j hj => ?_⟩
  obtain ⟨s, hs, -, hst⟩ := (hlast j (by omega)).stream
  have hgo := hk j (by omega) s hs hst
  simpa [happens, Connector.step, hs] using hgo

/-- A stream sends what it has read. -/
theorem drains (h : At id t e contract n sub (.sending rest events) all i) :
    ∃ j all', i ≤ j ∧ At id t e contract n sub (.reading events) all' j := by
  induction rest generalizing i all with
  | nil =>
    obtain ⟨j, hj, hat, hevent⟩ := hw.goes_on h fun _ => ⟨0, fun j _ s _ hst => by
      simp [Connector.goOn, hst]⟩
    obtain ⟨s, s', -, hst, hg, hnext⟩ := hw.at_goes hat hevent
    generalize (t (j + 1)).world = c' at hg
    cases hg with
    | returns hst₀ hs' =>
      cases hst.symm.trans hst₀
      subst hs'
      exact ⟨j + 1, _, by omega, hnext (by simp [renews, hst])⟩
    | _ hst₀ => cases hst.symm.trans hst₀
  | cons ticker rest ih =>
    obtain ⟨s₀, hs₀, -⟩ := h.stream
    obtain ⟨j, hj, hat, hevent⟩ := hw.goes_on h fun hlast => by
      -- nothing is sent, so the consumer makes room
      obtain ⟨k, -, hempty⟩ := hw.queue_empties hs₀ fun j hj => (hlast j hj).tickers
      refine ⟨k, fun j hj s hs hst => ?_⟩
      have hopen := (hw.opened j s hs).1
      have hroom := ((hw.accounts j).present id s hs).room
      simp [Connector.goOn, hst, hopen, Channel.send?, hempty j hj s hs, hroom]
    obtain ⟨s, s', -, hst, hg, hnext⟩ := hw.at_goes hat hevent
    generalize (t (j + 1)).world = c' at hg
    cases hg with
    | sends hst₀ hopen hroom hs' =>
      cases hst.symm.trans hst₀
      subst hs'
      obtain ⟨k, all', hk, hread⟩ := ih (hnext (by simp [renews, hst]))
      exact ⟨k, all', by omega, hread⟩
    | _ hst₀ => cases hst.symm.trans hst₀

/-- A stream that is behind what was sent reads on. -/
theorem advances (h : At id t e contract n sub (.reading ⟨events.source, p⟩) all i)
    (hb : (t i).world.gateway.events[events.source]? = some b) (hlt : p < b.sent.length) :
    ∃ j p' all', i ≤ j ∧ p < p' ∧
      At id t e contract n sub (.reading ⟨events.source, p'⟩) all' j := by
  have hfound : ∀ j, i ≤ j → ∃ b', (t j).world.gateway.events[events.source]? = some b' ∧
      p < b'.sent.length := by
    intro j hj
    obtain ⟨b', hb', hgrows⟩ := hw.grows_of_le hj _ b hb
    exact ⟨b', hb', Nat.lt_of_lt_of_le hlt hgrows.length_le⟩
  obtain ⟨j, hj, hat, hevent⟩ := hw.goes_on h fun _ => ⟨i, fun j hj s _ hst => by
    obtain ⟨b', hb', hlt'⟩ := hfound j hj
    simp only [Connector.goOn, hst]
    exact readEvent_ne_none (hear_eq hb' ▸ next_ne_empty hlt')⟩
  obtain ⟨b', hb', hlt'⟩ := hfound j hj
  obtain ⟨s, s', -, hst, hg, hnext⟩ := hw.at_goes hat hevent
  generalize (t (j + 1)).world = c' at hg
  cases hg with
  | hears hst₀ hh hs' =>
    cases hst.symm.trans hst₀
    subst hs'
    obtain ⟨k, all', hk, hread⟩ := hw.drains (hnext (by simp [renews, hst]))
    exact ⟨k, p + 1, all', by omega, Nat.lt_succ_self p, hread⟩
  | lags hst₀ hh hs' =>
    cases hst.symm.trans hst₀
    subst hs'
    obtain ⟨hover, rfl⟩ := next_eq_lagged (hear_eq hb' ▸ hh)
    exact ⟨j + 1, _, _, by omega, by omega, hnext (by simp [renews, hst])⟩
  | ends hst₀ hh hs' =>
    cases hst.symm.trans hst₀
    have hle := (next_eq_ended (hear_eq hb' ▸ hh)).2
    omega
  | _ hst₀ => cases hst.symm.trans hst₀

/-- A stream reads all that was sent. -/
theorem catches_up {m : Nat} (h : At id t e contract n sub (.reading ⟨events.source, p⟩) all i)
    (hb : (t i).world.gateway.events[events.source]? = some b) (hm : m ≤ b.sent.length) :
    ∃ j stop all', i ≤ j ∧ m ≤ stop ∧
      At id t e contract n sub (.reading ⟨events.source, stop⟩) all' j := by
  induction hd : m - p using Nat.strongRecOn generalizing i p all b with
  | _ d ih =>
    rcases Nat.lt_or_ge p m with hlt | hge
    · obtain ⟨j, p', all', hj, hp', hread⟩ := hw.advances h hb (by omega)
      obtain ⟨b', hb', hgrows⟩ := hw.grows_of_le hj _ b hb
      obtain ⟨k, stop, all'', hk, hstop, hat⟩ :=
        ih (m - p') (by omega) hread hb' (Nat.le_trans hm hgrows.length_le) rfl
      exact ⟨k, stop, all'', by omega, hstop, hat⟩
    · exact ⟨i, p, all, Nat.le_refl i, hge, h⟩

end Watched
end

/-! ## Waiting for ever -/

/-- There are no calls, and every stream waits for the next event, with nothing left for its
consumer. -/
def Connector.isQuiet (c : Connector) : Bool :=
  c.calls.isEmpty && c.streams.all fun s =>
    match s.stage with
    | .reading events =>
      decide (c.gateway.hear events = .empty) && !s.queue.closed && s.queue.items.isEmpty
    | _ => false

section Quiet

variable {c : Connector} {id now : Nat} {s : Stream} {t : Nat → Timed Connector} {e : Nat → Event}

theorem quiet_stream (h : c.isQuiet = true) (hs : c.stream? id = some s) :
    ∃ events, s.stage = .reading events ∧ c.gateway.hear events = .empty ∧
      s.queue.closed = false ∧ s.queue.items = [] := by
  rw [Connector.isQuiet, Bool.and_eq_true, List.all_eq_true] at h
  have hquiet := h.2 s (List.mem_of_find?_eq_some hs)
  split at hquiet
  · rename_i events hst
    simp only [Bool.and_eq_true, decide_eq_true_eq, Bool.not_eq_true', List.isEmpty_iff] at hquiet
    exact ⟨events, hst, hquiet.1.1, hquiet.1.2, hquiet.2⟩
  · cases hquiet

theorem step_none_of_quiet (h : c.isQuiet = true) (m : Connector.Move) :
    Connector.step now m c = none := by
  cases m with
  | call id =>
    rw [Connector.isQuiet, Bool.and_eq_true] at h
    have hcalls : c.calls = [] := by simpa using h.1
    rw [Connector.step, hcalls]
    rfl
  | notice id =>
    refine Option.bind_eq_none_iff.2 fun s hs => ?_
    obtain ⟨events, hst, hempty, hopen, -⟩ := quiet_stream h hs
    simp [Connector.notice, hopen]
  | stream id =>
    refine Option.bind_eq_none_iff.2 fun s hs => ?_
    obtain ⟨events, hst, hempty, -⟩ := quiet_stream h hs
    simp [Connector.goOn, hst, Connector.readEvent, hempty]

/-- When all are quiet, time may pass. -/
theorem exists_attended (id now : Nat) (h : c.isQuiet = true) :
    ∃ t e, Attended id t e ∧ t 0 = ⟨now, c⟩ := by
  refine ⟨_, _, ⟨fair_of_rest now fun _ => step_none_of_quiet h, nofun, fun i => ?_, nofun⟩, rfl⟩
  refine ⟨i, Nat.le_refl i, .inr fun s hs => ?_⟩
  obtain ⟨-, -, -, -, hitems⟩ := quiet_stream h hs
  exact hitems

/-- What is attended from some moment on is attended, if the consumer was there before. -/
theorem Attended.of_replay {es : List Event} {t₀ t₁ : Timed Connector}
    {h : List (Incident (Timed Connector) Event)} (ha : Attended id t e)
    (hr : History.replay happens es t₀ = some (h, t₁)) (hstart : t 0 = t₁) (hlaw : Lawful h)
    (hstays : ∀ event ∈ es, event ≠ .drop id) :
    ∃ t' e', Attended id t' e' ∧ t' 0 = t₀ ∧ incidents t' e' es.length = h ∧
      t' es.length = t₁ := by
  obtain ⟨t', e', hend, hstart', hinc, hlate, hearly⟩ := ha.endless.of_replay hr hstart
  have hfrom {i : Nat} (hi : es.length ≤ i) :
      t' i = t (i - es.length) ∧ e' i = e (i - es.length) := by
    have heq := hlate (i - es.length)
    rwa [Nat.sub_add_cancel hi] at heq
  refine ⟨t', e', ⟨⟨hend, fun m => (ha.just m).of_later hlate, fun time => ?_⟩, fun i g hg => ?_,
    fun i => ?_, fun i => ?_⟩, hstart', hinc, ?_⟩
  · obtain ⟨i, hi⟩ := ha.passes time
    exact ⟨i + es.length, (hlate i).1 ▸ hi⟩
  · rcases Nat.lt_or_ge i es.length with hi | hi
    · refine hlaw ⟨t' i, e' i, t' (i + 1)⟩ ?_ g hg
      rw [← hinc]
      exact List.mem_map.2 ⟨i, List.mem_range.2 hi, rfl⟩
    · rw [(hfrom hi).2] at hg
      rw [(hfrom hi).1]
      exact ha.lawful _ g hg
  · obtain ⟨j, hj, hread⟩ := ha.reads i
    refine ⟨j + es.length, by omega, ?_⟩
    rwa [(hlate j).1, (hlate j).2]
  · rcases Nat.lt_or_ge i es.length with hi | hi
    · rw [hearly i hi]
      exact hstays _ (List.getElem_mem hi)
    · rw [(hfrom hi).2]
      exact ha.stays _
  · rw [← hstart, ← (hlate 0).1, Nat.zero_add]

end Quiet

end Ibkr
end MarketFeed
