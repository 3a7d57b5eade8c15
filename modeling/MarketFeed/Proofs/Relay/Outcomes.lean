import MarketFeed.Proofs.Relay.Standing

/-!
# MarketFeed.Proofs.Relay.Outcomes

How a call for a batch leaves the client, by its result.

* `Last` — the attempt that a result is of. `Run.last`: every result is of one.
* `Lost`, `Kept` — what is left after a failure: nothing, or the session with its table.
* `Outcome` — the client after each result. `publish_outcomes`: every run of a call ends so.
-/

namespace MarketFeed
namespace Relay

/-! ## The last attempt of a call -/

section LastAttempt

variable {config : RelayConfig} {batch : List Tick} {id : Nat} {c c' c₀ : Client}
  {trace : List Stage} {r : Except RelayError Unit}

/-- The attempt that a result is of: it began at `c₀`, where the call itself began or where the
first attempt had left no session. -/
structure Last (id : Nat) (batch : List Tick) (c : Client) (c₀ : Client) (trace : List Stage)
    (c' : Client) (r : Except RelayError Unit) : Prop where
  begins : c₀ = c ∨ c₀.session = none ∧ c.connections.length ≤ c₀.connections.length
  attempt : Attempt id batch c₀ trace c' (some r)
  standing : Standing batch c₀ (dials trace) c' (.finished r)

theorem Run.last (hr : Reachable config c) (h₀ : Begins id batch false c) (h : Run id c trace c')
    (hres : c'.result? id = some r) :
    ∃ c₀ trace', Last id batch c c₀ trace' c' r ∧ dials trace' ≤ dials trace := by
  have hends {c : Client} {again : Bool} {trace : List Stage} (hr : Reachable config c)
      (h₀ : Begins id batch again c) (h : Run id c trace c')
      (htry : ∀ st ∈ trace, st.outcome? = none) :
      Attempt id batch c trace c' (some r) ∧ Standing batch c (dials trace) c' (.finished r) := by
    obtain ⟨k, hk, ho⟩ := h.standing hr h₀ htry
    have hattempt := h.attempt hr h₀ htry hk
    rw [stage_of_result hk hres] at hattempt ho
    exact ⟨hattempt, ho⟩
  cases h.phase hr h₀ with
  | first h htry =>
    obtain ⟨hattempt, ho⟩ := hends hr h₀ h htry
    exact ⟨c, trace, ⟨.inl rfl, hattempt, ho⟩, Nat.le_refl _⟩
  | between h hk ht hs =>
    rw [stage_of_result hk hres] at hs
    cases hs
  | second hret hnone h₂ h' htry' =>
    have hr₁ := hret.run.reachable hr
    obtain ⟨hattempt, ho⟩ := hends (hret.onward.reachable hr₁) h₂ h' htry'
    have hle := Nat.le_trans (hret.run.length_le hr) (hret.onward.length_le hr₁)
    refine ⟨_, _, ⟨.inr ⟨hnone, hle⟩, hattempt, ho⟩, ?_⟩
    rw [dials, dials, List.countP_append]
    exact Nat.le_add_left _ _

theorem Writes.unique {n : Nat} {new new' : List Wire.Message} (h : Writes c c' n new)
    (h' : Writes c c' n new') : new = new' :=
  List.append_cancel_left (h.here.symm.trans h'.here)

/-- A connection that has been dialled since the call began was empty then. -/
theorem Last.logAt (h : Last id batch c c₀ trace c' r) :
    c₀.logAt (c₀.seat (dials trace)) = c.logAt (c₀.seat (dials trace)) := by
  rcases h.begins with rfl | ⟨hnone, hle⟩
  · rfl
  · rw [h.attempt.dialsFirst hnone (by nofun)]
    have hseat : c₀.seat 1 = c₀.connections.length := rfl
    rw [hseat, logAt_of_le (Nat.le_refl _), logAt_of_le hle]

theorem Last.reached (h : Last id batch c c₀ trace c' r) {b : Session}
    (hb : c₀.firstSession? (dials trace) = some b) {new : List Wire.Message}
    (hw : Writes c₀ c' b.connection new) :
    messages (c'.logAt b.connection) = messages (c.logAt b.connection) ++ new := by
  have hlog := h.logAt
  rw [seat_of_firstSession hb] at hlog
  rw [hw.here, hlog]

end LastAttempt

/-! ## The outcomes -/

/-- There is no session any more, and the next call that connects dials. -/
structure Lost (config : RelayConfig) (c : Client) : Prop where
  session : c.session = none
  state : c.state = .disconnected
  subscriptions : c.subscriptionCount = 0
  redials : ∀ c₁ task trace c₂, Lull c c₁ → task.connects = true →
    Run c₁.nextCall (c₁.call task).2 trace c₂ →
      Redials config c₁.nextCall (c₁.call task).2 trace c₂

/-- What a session writes for the ticks before a new listing, and to ask for that listing. -/
def Session.asking (s : Session) (before : List Tick) (l : Listing) : List Wire.Message :=
  s.plan before ++
    [.subscribe (s.nextId + UInt32.ofNat (requests (s.plan before))) l.symbol l.exchange]

/-- The batch asks for the listing where it first comes to it, after the ticks `before`, under the
next number; so it does not succeed, and is not rejected for another listing from there on, without
having asked. -/
def AsksAnew (s : Session) (before : List Tick) (l : Listing) (c c' : Client) (id : Nat) : Prop :=
  ∃ new, Writes c c' s.connection new ∧
    (new <+: s.asking before l ∨ s.asking before l <+: new) ∧
    ∀ r, c'.result? id = some r → (∀ e, r = .error e → ∃ symbol exchange reason,
        e = .subscriptionRejected symbol exchange reason ∧
          ∀ t ∈ before, (⟨t.symbol, t.exchange⟩ : Listing) ≠ ⟨symbol, exchange⟩) →
      s.asking before l <+: new

/-- The session is left on which a listing was rejected, after the ticks `done` of the batch. -/
structure Kept (batch : List Tick) (l : Listing) (c c' : Client) (s : Session)
    (done : List Tick) : Prop where
  session : c'.session = some s
  /-- It knows just the listings that were confirmed on its connection. -/
  table : ∀ l' id, (l', id) ∈ s.subscriptions ↔ Answered (c'.logAt s.connection) l' id
  accepted : ∀ t ∈ done, ∃ id, (⟨t.symbol, t.exchange⟩, id) ∈ s.subscriptions
  rejected : ∀ id, (l, id) ∉ s.subscriptions
  /-- The rejected tick follows, and its request was the last thing written. Before it the trades
  of the others were. -/
  written : ∃ t rest new id, batch = done ++ t :: rest ∧ l = ⟨t.symbol, t.exchange⟩ ∧
    messages (c'.logAt s.connection) =
      messages (c.logAt s.connection) ++ new ++ [.subscribe id t.symbol t.exchange] ∧
    List.Forall₂ (Carries (c'.logAt s.connection)) (new.filter isTrade) done ∧ s.nextId = id + 1
  /-- The next batch with the listing asks for it once more, unless it has to dial. -/
  resumes : ∀ c₁ before t after trace c₂, Lull c' c₁ → l = ⟨t.symbol, t.exchange⟩ →
    (∀ u ∈ before, (⟨u.symbol, u.exchange⟩ : Listing) ≠ l) →
    Run c₁.nextCall (c₁.call (.publish (before ++ t :: after) false)).2 trace c₂ →
    dials trace = 0 →
      AsksAnew s before l (c₁.call (.publish (before ++ t :: after) false)).2 c₂ c₁.nextCall

/-- How a call for `batch` that began at `c` has left the client, by its result. -/
def Outcome (config : RelayConfig) (batch : List Tick) (c c' : Client) :
    Except RelayError Unit → Prop
  | .ok () => ∃ s, c'.session = some s ∧
    ∀ t ∈ batch, ∃ id, (⟨t.symbol, t.exchange⟩, id) ∈ s.subscriptions
  | .error (.subscriptionRejected symbol exchange _) =>
    ∃ s done, Kept batch ⟨symbol, exchange⟩ c c' s done
  | .error _ => Lost config c'

section Outcomes

variable {config : RelayConfig} {batch : List Tick} {c c' : Client} {trace : List Stage}
  {r : Except RelayError Unit}

/-- While no call is under way the session knows what was confirmed on its connection. -/
theorem table_of_idle (hw : Wired config c) (hidle : Idle c) {s : Session}
    (hs : c.session = some s) (l : Listing) (id : UInt32) :
    (l, id) ∈ s.subscriptions ↔ Answered (c.logAt s.connection) l id := by
  obtain ⟨log, hlog, hin⟩ := hw.inStep s hs
  have hat : c.logAt s.connection = log := by rw [Client.logAt, hlog]; rfl
  rw [hat]
  refine ⟨hin.known l id, ?_⟩
  rintro ⟨f, hf, hconf⟩
  rcases hw.settled s log hs hlog with hset | ⟨k, hk, hsub⟩
  · exact hset.all l id f hf hconf
  · obtain ⟨r, hst⟩ := hidle k hk
    rw [hst] at hsub
    cases hsub

/-- The plan of a batch asks for an unknown listing where it first comes to it. -/
theorem asking_prefix {s : Session} {l : Listing} {before after : List Tick} {t : Tick}
    (ht : l = ⟨t.symbol, t.exchange⟩) (hs : ∀ id, (l, id) ∉ s.subscriptions)
    (hbefore : ∀ u ∈ before, (⟨u.symbol, u.exchange⟩ : Listing) ≠ l) :
    s.asking before l <+: s.plan (before ++ t :: after) := by
  subst ht
  have hnone : (s.through before).idOf? ⟨t.symbol, t.exchange⟩ = none := by
    rw [Session.idOf?, Option.map_eq_none_iff, List.find?_eq_none]
    rintro ⟨l', id⟩ hm
    rw [decide_eq_true_eq]
    rintro rfl
    rcases of_mem_through hm with hm | ⟨u, hu, heq⟩
    · exact hs id hm
    · exact hbefore u hu heq.symm
  rw [plan_append, plan_adopt hnone, through_nextId, Session.asking]
  exact ⟨_, by rw [List.append_assoc]; rfl⟩

/-- A call that does not dial writes on the connection it has found, in the order of its plan. -/
theorem Run.writes_of_no_dial {id : Nat} (hr : Reachable config c) (h₀ : Begins id batch false c)
    (h : Run id c trace c') (hzero : dials trace = 0) :
    ∃ new, Writes c c' (c.seat 0) new ∧ new <+: c.plan 0 batch := by
  have hparts {a b : List Stage} (h : dials (a ++ b) = 0) : dials a = 0 ∧ dials b = 0 := by
    rw [dials, List.countP_append] at h
    exact Nat.add_eq_zero_iff.1 h
  have hcourse := (h.phase hr h₀).course hr h₀
  generalize c'.result? id = o at hcourse
  cases hcourse with
  | first hone =>
    obtain ⟨new, hw, hpre, -⟩ := hone.written
    rw [hzero] at hw hpre
    exact ⟨new, hw, hpre⟩
  | between hone he hrun htear hquiet =>
    obtain ⟨new, hw, hpre, -⟩ := hone.written
    rw [(hparts hzero).1] at hw hpre
    have hall := hw.trans (.nothing hquiet _)
    rw [List.append_nil] at hall
    exact ⟨new, hall, hpre⟩
  | second hone he hrun htear hquiet hnone htwo =>
    obtain ⟨new, hw, hpre, -⟩ := hone.written
    obtain ⟨new', hw', hpre', -⟩ := htwo.written
    rw [(hparts (hparts hzero).1).1] at hw hpre
    rw [(hparts hzero).2, Client.plan, if_pos rfl, hnone] at hpre'
    cases List.prefix_nil.1 hpre'
    have hall := (hw.trans (.nothing hquiet _)).trans (.nothing hw'.at_nil _)
    rw [List.append_nil, List.append_nil] at hall
    exact ⟨new, hall, hpre⟩

/-- A tick whose listing is not among those before another comes after them. -/
theorem prefix_of_not_mem {before after done rest : List Tick} {t u : Tick}
    (h : before ++ t :: after = done ++ u :: rest)
    (hu : ∀ v ∈ before, (⟨v.symbol, v.exchange⟩ : Listing) ≠ ⟨u.symbol, u.exchange⟩) :
    before <+: done := by
  rcases List.append_eq_append_iff.1 h with ⟨mid, rfl, -⟩ | ⟨mid, rfl, hmid⟩
  · exact ⟨mid, rfl⟩
  · cases mid with
    | nil => exact ⟨[], by simp⟩
    | cons v mid =>
      cases hmid
      exact absurd rfl (hu u (by simp))

theorem Run.asksAnew {id : Nat} {s s₀ : Session} {l : Listing} {before after : List Tick} {t : Tick}
    (hr : Reachable config c) (h₀ : Begins id (before ++ t :: after) false c)
    (h : Run id c trace c') (hzero : dials trace = 0) (hs₀ : c.session = some s₀)
    (hlike : s.Resembles s₀) (ht : l = ⟨t.symbol, t.exchange⟩)
    (hs : ∀ id, (l, id) ∉ s.subscriptions)
    (hbefore : ∀ u ∈ before, (⟨u.symbol, u.exchange⟩ : Listing) ≠ l) :
    AsksAnew s before l c c' id := by
  have hseat : c.seat 0 = s.connection := by
    rw [Client.seat, if_pos rfl, hs₀]
    exact hlike.connection
  have hplan (batch : List Tick) : c.plan 0 batch = s.plan batch := by
    rw [Client.plan, if_pos rfl, hs₀]
    exact hlike.plan batch
  have hasking : s.asking before l <+: s.plan (before ++ t :: after) := asking_prefix ht hs hbefore
  obtain ⟨new, hw, hpre⟩ := h.writes_of_no_dial hr h₀ hzero
  rw [hplan] at hpre
  refine ⟨new, hseat ▸ hw, List.prefix_or_prefix_of_prefix hpre hasking, ?_⟩
  intro r hres hother
  obtain ⟨c₀, trace', hlast, hle⟩ := h.last hr h₀ hres
  have hzero' : dials trace' = 0 := by omega
  have hbegins : c₀ = c := by
    rcases hlast.begins with rfl | ⟨hnone, -⟩
    · rfl
    · have hone := hlast.attempt.dialsFirst hnone (by simp)
      omega
  subst hbegins
  have hstanding := hlast.standing
  obtain ⟨new', hw', -, -, hdone⟩ := hlast.attempt.written
  rw [hzero'] at hstanding hw' hdone
  cases hw.unique hw'
  cases r with
  | ok u =>
    rw [(hdone rfl).1, hplan]
    exact hasking
  | error e =>
    obtain ⟨symbol, exchange, reason, rfl, hnot⟩ := hother e rfl
    rcases hstanding with ⟨hno, -⟩ | ⟨done, u, rest, i, reason', he, hbatch, -, hw''⟩
    · cases hno
    · -- the rejected tick is not among those before, so the batch has come to the listing
      cases he
      obtain ⟨mid, rfl⟩ := prefix_of_not_mem hbatch hnot
      have hnew := hw.unique hw''
      rw [hplan] at hnew
      refine List.prefix_of_prefix_length_le hasking hpre ?_
      rw [hnew, plan_append, Session.asking]
      simp only [List.length_append, List.length_singleton]
      omega

/-- What is left when a listing was rejected. -/
theorem Last.kept {config : RelayConfig} {id : Nat} {c₀ : Client} {e : RelayError}
    {done rest : List Tick} {t : Tick} {i : UInt32} (hr' : Reachable config c') (hidle : Idle c')
    (h : Last id batch c c₀ trace c' (.error e)) (hbatch : batch = done ++ t :: rest)
    (hasked : Asked c₀ (dials trace) done t i c')
    (hw : Writes c₀ c' (c₀.seat (dials trace))
      (c₀.plan (dials trace) done ++ [.subscribe i t.symbol t.exchange])) :
    ∃ s, Kept batch ⟨t.symbol, t.exchange⟩ c c' s done := by
  obtain ⟨b, s, hb, hs, hnone, rfl, hlike⟩ := hasked
  have hconn : c₀.seat (dials trace) = s.connection := by
    rw [seat_of_firstSession hb, hlike.connection]
    exact (through_connection b done).symm
  have hsubs : s.subscriptions = (b.through done).subscriptions := hlike.subscriptions
  have hrejected : ∀ id, ((⟨t.symbol, t.exchange⟩ : Listing), id) ∉ s.subscriptions := by
    rw [hsubs]
    exact idOf?_none hnone
  refine ⟨s, hs, table_of_idle hr'.wired hidle hs, ?_, hrejected, ?_, ?_⟩
  · rw [hsubs]
    exact fun u hu => mem_through hu
  · obtain ⟨new, hw', -, hcarries, -⟩ := h.attempt.written
    cases hw'.unique hw
    have hdialled : Dialled c₀ (dials trace) :=
      ⟨h.attempt.dialsOnce, fun hno => h.attempt.dialsFirst hno (by nofun)⟩
    have hask : ∀ id, [Wire.Message.subscribe id t.symbol t.exchange].filter isTrade = [] :=
      fun _ => rfl
    rw [List.filter_append, hask, List.append_nil, length_trades_plan hdialled, hbatch,
      List.take_left, hconn] at hcarries
    have hreached := h.reached hb (seat_of_firstSession hb ▸ hw)
    rw [← seat_of_firstSession hb, hconn, ← List.append_assoc] at hreached
    exact ⟨t, rest, c₀.plan (dials trace) done, _, hbatch, rfl, hreached, hcarries, hlike.nextId⟩
  · intro c₁ before u after trace' c₂ hlull hu hbefore hrun hzero
    obtain ⟨s₁, hs₁, hlike₁⟩ := resembles_of_calm hlull.calm hs
    have hr₁ := hlull.reachable hr'
    have hne : before ++ u :: after ≠ [] := by simp
    exact Run.asksAnew (.move hr₁ (.calls _ (by intro b hbad; cases hbad)))
      (call_publish hr₁.locked hne).2 hrun hzero ((call_spec c₁ _).2.1.trans hs₁) hlike₁ hu
      hrejected hbefore

end Outcomes
end Relay
end MarketFeed
