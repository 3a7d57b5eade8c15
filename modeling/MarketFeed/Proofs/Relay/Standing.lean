import MarketFeed.Proofs.Relay.Redial

/-!
# MarketFeed.Proofs.Relay.Standing

How far a batch has brought the session.

* `Session.through` — a session after a batch that went well on it.
* `Standing` — how far the session of an attempt has been taken through the batch at each stage, and
  what is left of it when the attempt has failed.
* `Run.standing` — an attempt never leaves it.
-/

namespace MarketFeed
namespace Relay

/-! ## A session after a batch -/

/-- The session when a new listing has been asked for and confirmed. -/
def Session.adopt (s : Session) (t : Tick) : Session :=
  s.takeId.2.accept ⟨t.symbol, t.exchange⟩ s.nextId

/-- The session when the ticks of a batch have been sent on it. -/
def Session.through (s : Session) : List Tick → Session
  | [] => s
  | t :: rest =>
    match s.idOf? ⟨t.symbol, t.exchange⟩ with
    | some _ => s.through rest
    | none => (s.adopt t).through rest

/-- The sessions differ in their queues and readers at most. -/
structure Session.Resembles (s s' : Session) : Prop where
  connection : s'.connection = s.connection
  subscriptions : s'.subscriptions = s.subscriptions
  nextId : s'.nextId = s.nextId

section Through

variable {s s' : Session} {t : Tick} {l : Listing}

theorem through_known {id : UInt32} (h : s.idOf? ⟨t.symbol, t.exchange⟩ = some id)
    (rest : List Tick) : s.through (t :: rest) = s.through rest := by
  rw [Session.through, h]

theorem through_unknown (h : s.idOf? ⟨t.symbol, t.exchange⟩ = none) (rest : List Tick) :
    s.through (t :: rest) = (s.adopt t).through rest := by
  rw [Session.through, h]

theorem plan_adopt (h : s.idOf? ⟨t.symbol, t.exchange⟩ = none) (rest : List Tick) :
    s.plan (t :: rest) =
      .subscribe s.nextId t.symbol t.exchange :: trade s.nextId t :: (s.adopt t).plan rest := by
  rw [Session.plan, h]
  rfl

/-- An induction on a batch, by whether the session knows the listing of its first tick. -/
theorem through_induction {motive : Session → List Tick → Prop} (nil : ∀ s, motive s [])
    (known : ∀ s t rest id, s.idOf? ⟨t.symbol, t.exchange⟩ = some id → motive s rest →
      motive s (t :: rest))
    (unknown : ∀ s t rest, s.idOf? ⟨t.symbol, t.exchange⟩ = none →
      motive (s.adopt t) rest → motive s (t :: rest))
    (s : Session) (batch : List Tick) : motive s batch := by
  induction batch generalizing s with
  | nil => exact nil s
  | cons t rest ih =>
    cases h : s.idOf? ⟨t.symbol, t.exchange⟩ with
    | some id => exact known s t rest id h (ih s)
    | none => exact unknown s t rest h (ih _)

theorem plan_append (s : Session) (a b : List Tick) :
    s.plan (a ++ b) = s.plan a ++ (s.through a).plan b := by
  induction s, a using through_induction with
  | nil s => rfl
  | known s t rest id h ih =>
    rw [List.cons_append, plan_known h, plan_known h, through_known h, ih, List.cons_append]
  | unknown s t rest h ih =>
    rw [List.cons_append, plan_adopt h, plan_adopt h, through_unknown h]
    rw [ih, List.cons_append, List.cons_append]

theorem through_append (s : Session) (a b : List Tick) :
    s.through (a ++ b) = (s.through a).through b := by
  induction s, a using through_induction with
  | nil s => rfl
  | known s t rest id h ih => rw [List.cons_append, through_known h, through_known h, ih]
  | unknown s t rest h ih => rw [List.cons_append, through_unknown h, through_unknown h, ih]

theorem through_connection (s : Session) (batch : List Tick) :
    (s.through batch).connection = s.connection := by
  induction s, batch using through_induction with
  | nil s => rfl
  | known s t rest id h ih => rw [through_known h, ih]
  | unknown s t rest h ih => rw [through_unknown h, ih]; rfl

theorem mem_through_of_mem {p : Listing × UInt32} (batch : List Tick)
    (h : p ∈ s.subscriptions) : p ∈ (s.through batch).subscriptions := by
  induction s, batch using through_induction with
  | nil s => exact h
  | known s t rest id hid ih =>
    rw [through_known hid]
    exact ih h
  | unknown s t rest hid ih =>
    rw [through_unknown hid]
    exact ih (List.mem_append_left _ h)

/-- It knows the listings of the batch. -/
theorem mem_through {batch : List Tick} (h : t ∈ batch) :
    ∃ id, (⟨t.symbol, t.exchange⟩, id) ∈ (s.through batch).subscriptions := by
  induction s, batch using through_induction with
  | nil s => cases h
  | known s u rest id hid ih =>
    rw [through_known hid]
    rcases List.mem_cons.1 h with rfl | h
    · exact ⟨id, mem_through_of_mem rest (idOf?_some hid)⟩
    · exact ih h
  | unknown s u rest hid ih =>
    rw [through_unknown hid]
    rcases List.mem_cons.1 h with rfl | h
    · exact ⟨s.nextId, mem_through_of_mem rest (by simp [Session.adopt, Session.accept])⟩
    · exact ih h

/-- It knows no others but those it has known before. -/
theorem of_mem_through {id : UInt32} {batch : List Tick}
    (h : (l, id) ∈ (s.through batch).subscriptions) :
    (l, id) ∈ s.subscriptions ∨ ∃ t ∈ batch, l = ⟨t.symbol, t.exchange⟩ := by
  induction s, batch using through_induction with
  | nil s => exact .inl h
  | known s t rest i hid ih =>
    rw [through_known hid] at h
    refine (ih h).imp_right ?_
    rintro ⟨u, hu, rfl⟩
    exact ⟨u, .tail _ hu, rfl⟩
  | unknown s t rest hid ih =>
    rw [through_unknown hid] at h
    rcases ih h with hm | ⟨u, hu, rfl⟩
    · rcases List.mem_append.1 hm with hm | hm
      · exact .inl hm
      · cases List.mem_singleton.1 hm
        exact .inr ⟨t, .head _, rfl⟩
    · exact .inr ⟨u, .tail _ hu, rfl⟩

/-- The requests among some messages. -/
def requests (ms : List Wire.Message) : Nat := ms.countP (·.kind = .subscribe)

/-- It has counted on by the requests of the plan. -/
theorem through_nextId (s : Session) (batch : List Tick) :
    (s.through batch).nextId = s.nextId + UInt32.ofNat (requests (s.plan batch)) := by
  induction s, batch using through_induction with
  | nil s => exact (UInt32.add_zero _).symm
  | known s t rest id h ih =>
    rw [through_known h, plan_known h, ih, requests, requests, List.countP_cons_of_neg (by nofun)]
  | unknown s t rest h ih =>
    rw [through_unknown h, plan_adopt h, ih, requests, requests,
      List.countP_cons_of_pos (by rfl), List.countP_cons_of_neg (by nofun)]
    simp only [Session.adopt, Session.takeId, Session.accept]
    rw [Nat.add_comm, UInt32.ofNat_add, UInt32.add_assoc]
    rfl

namespace Session.Resembles

theorem refl (s : Session) : s.Resembles s := ⟨rfl, rfl, rfl⟩

theorem trans {s'' : Session} (h : s.Resembles s') (h' : s'.Resembles s'') : s.Resembles s'' :=
  ⟨h'.connection.trans h.connection, h'.subscriptions.trans h.subscriptions,
    h'.nextId.trans h.nextId⟩

theorem idOf? (h : s.Resembles s') (l : Listing) : s'.idOf? l = s.idOf? l := by
  rw [Session.idOf?, Session.idOf?, h.subscriptions]

theorem plan (h : s.Resembles s') (batch : List Tick) : s'.plan batch = s.plan batch :=
  plan_congr batch h.subscriptions h.nextId

theorem accept (h : s.Resembles s') (l : Listing) (id : UInt32) :
    (s.accept l id).Resembles (s'.accept l id) :=
  ⟨h.connection, by simp only [Session.accept, h.subscriptions], h.nextId⟩

end Session.Resembles

end Through

/-! ## How far the session has been taken -/

/-- The session on which an attempt sends that begins here and dials `d` times, as it is at
first. -/
def Client.firstSession? (c : Client) (d : Nat) : Option Session :=
  if d = 0 then c.session else some (.start c.connections.length)

/-- The session has been taken through the ticks `done`. -/
def Taken (c : Client) (d : Nat) (done : List Tick) (c' : Client) : Prop :=
  ∃ b s, c.firstSession? d = some b ∧ c'.session = some s ∧ (b.through done).Resembles s

/-- After the ticks `done` the listing of `t` was asked for, under the number `id`. -/
def Asked (c : Client) (d : Nat) (done : List Tick) (t : Tick) (id : UInt32) (c' : Client) : Prop :=
  ∃ b s, c.firstSession? d = some b ∧ c'.session = some s ∧
    (b.through done).idOf? ⟨t.symbol, t.exchange⟩ = none ∧ id = (b.through done).nextId ∧
    (b.through done).takeId.2.Resembles s

/-- The error tells that a listing was rejected. -/
def RelayError.isRejection : RelayError → Bool
  | .subscriptionRejected .. => true
  | _ => false

/-- What is left of the session when the attempt has failed: nothing, unless a listing was
rejected. -/
def Leaves (batch : List Tick) (c : Client) (d : Nat) (c' : Client) (e : RelayError) : Prop :=
  (e.isRejection = false ∧ c'.session = none) ∨
    ∃ done t rest id reason, e = .subscriptionRejected t.symbol t.exchange reason ∧
      batch = done ++ t :: rest ∧ Asked c d done t id c' ∧
      Writes c c' (c.seat d) (c.plan d done ++ [.subscribe id t.symbol t.exchange])

/-- How far the session of an attempt from `c` has been taken through the batch. -/
def Standing (batch : List Tick) (c : Client) (d : Nat) (c' : Client) : Stage → Prop
  | .beforeSending => Taken c d [] c'
  | .sending rest => ∃ done, batch = done ++ rest ∧ Taken c d done c'
  | .subscribing t rest id _ => ∃ done, batch = done ++ t :: rest ∧ Asked c d done t id c'
  | .finished (.ok ()) => Taken c d batch c'
  | .finished (.error e) => Leaves batch c d c' e
  | _ => True

section Standing

variable {config : RelayConfig} {batch done : List Tick} {again : Bool} {c c' c'' : Client}
  {d now : Nat} {new : List Wire.Message} {k : Call} {e : RelayError}

theorem seat_of_firstSession {b : Session} (h : c.firstSession? d = some b) :
    c.seat d = b.connection := by
  unfold Client.firstSession? at h
  unfold Client.seat
  split at h
  · rw [if_pos ‹_›, h]
    rfl
  · cases h
    rw [if_neg ‹_›]
    rfl

/-- The plan of an attempt goes on with that of the session which it leaves behind. -/
theorem plan_of_firstSession {b : Session} (h : c.firstSession? d = some b) (rest : List Tick) :
    c.plan d (done ++ rest) = c.plan d done ++ (b.through done).plan rest := by
  unfold Client.firstSession? at h
  unfold Client.plan
  split at h
  · rw [if_pos ‹_›, if_pos ‹_›, h]
    exact plan_append b done rest
  · cases h
    rw [if_neg ‹_›, if_neg ‹_›, plan_append, List.cons_append]

theorem resembles_of_calm (h : Calm c' c'') {s : Session} (hs : c'.session = some s) :
    ∃ s', c''.session = some s' ∧ s.Resembles s' := by
  cases hs' : c''.session with
  | none =>
    rw [h.none_iff.1 hs'] at hs
    cases hs
  | some s' =>
    obtain ⟨s₀, hs₀, hconn, hsub, hnext⟩ := h.session s' hs'
    rw [hs] at hs₀
    cases hs₀
    exact ⟨s', rfl, hconn, hsub, hnext⟩

theorem Taken.calm (h : Taken c d done c') (hc : Calm c' c'') : Taken c d done c'' := by
  obtain ⟨b, s, hb, hs, hlike⟩ := h
  obtain ⟨s', hs', hlike'⟩ := resembles_of_calm hc hs
  exact ⟨b, s', hb, hs', hlike.trans hlike'⟩

theorem Asked.calm {t : Tick} {id : UInt32} (h : Asked c d done t id c') (hc : Calm c' c'') :
    Asked c d done t id c'' := by
  obtain ⟨b, s, hb, hs, hnone, hid, hlike⟩ := h
  obtain ⟨s', hs', hlike'⟩ := resembles_of_calm hc hs
  exact ⟨b, s', hb, hs', hnone, hid, hlike.trans hlike'⟩

/-- What happens around the call leaves the session where it stands. -/
theorem Standing.calm {st : Stage} (h : Standing batch c d c' st) (hc : Calm c' c'') :
    Standing batch c d c'' st := by
  cases st with
  | beforeSending => exact Taken.calm h hc
  | sending rest =>
    obtain ⟨done, hbatch, htaken⟩ := h
    exact ⟨done, hbatch, htaken.calm hc⟩
  | subscribing t rest id due =>
    obtain ⟨done, hbatch, hasked⟩ := h
    exact ⟨done, hbatch, hasked.calm hc⟩
  | finished r =>
    cases r with
    | ok u => exact Taken.calm h hc
    | error e =>
      rcases h with ⟨he, hnone⟩ | ⟨done, t, rest, id, reason, he, hbatch, hasked, hw⟩
      · exact .inl ⟨he, hc.none_iff.2 hnone⟩
      · have hall := hw.trans (.nothing hc.writes _)
        rw [List.append_nil] at hall
        exact .inr ⟨done, t, rest, id, reason, he, hbatch, hasked.calm hc, hall⟩
  | _ => trivial

theorem standing_failure (he : e.isRejection = false) (hnone : c'.session = none) :
    Standing batch c d c' (k.failure e) := by
  unfold Call.failure
  split
  · trivial
  · exact .inl ⟨he, hnone⟩

theorem isRejection_of_connection (h : e.isConnectionError = true) : e.isRejection = false := by
  cases e <;> first | rfl | cases h

theorem isRejection_of_violation (h : e.isProtocolViolation = true) : e.isRejection = false := by
  cases e <;> first | rfl | cases h

/-- What may go on while the logon is answered: nothing of it is a rejected listing. -/
theorem logOn_cases {n due : Nat} (h : c.logOn? k n due now = some c') :
    (∃ e, e.isRejection = false ∧ c'.calls = restage c.calls k.id (k.failure e)) ∨
      c'.calls = c.calls ∨ c'.calls = restage c.calls k.id (.beforeInstallation n) := by
  have hfails (x : Connection) (e : RelayError) (he : e.isRejection = false) :
      ∃ e', e'.isRejection = false ∧ ((c.onConnection n fun _ => x).failLogon k n e).calls =
        restage c.calls k.id (k.failure e') :=
    ⟨e, he, failLogon_calls _ k n e⟩
  unfold Client.logOn? at h
  split at h
  · cases h
  · split at h
    · rename_i f x' hn
      cases h
      unfold Client.judgeLogon
      split
      · rename_i e hd
        exact .inl (hfails x' (.ofDecodeError e) (by cases e <;> rfl))
      · exact .inr (.inl rfl)
      · split
        · exact .inr (.inr rfl)
        · exact .inl (hfails x' (.logonRejected _) rfl)
      · exact .inl (hfails x' (.unexpectedMessage _) rfl)
    · rename_i e x' hn
      cases h
      exact .inl (hfails x' e (isRejection_of_connection (isConnectionError_of_next hn)))
    · split at h
      · cases h
        exact .inl ⟨.timeout "logon response", rfl, failLogon_calls c k n _⟩
      · cases h

theorem session_of_goes_logon (hg : Goes now k c c') (hnone : c.session = none)
    (hs : ∀ n, k.stage ≠ .beforeInstallation n) : c'.session = none := by
  rcases sessionAt_of_goes hg with hsame | hno | ⟨n, hn, -⟩
  · rw [Client.sessionAt?, Client.sessionAt?, hnone, Option.map_none] at hsame
    exact Option.map_eq_none_iff.1 hsame
  · exact Option.map_eq_none_iff.1 hno
  · exact absurd hn (hs n)

/-- The steps of dialling and logging on: a failure leaves no session. -/
theorem Standing.connects (h' : Wired config c') (hk : c'.calls.find? (·.id = k.id) = some k)
    (hs : Client.isDialling k = true) (hstep : c'.step now k = some c'') :
    ∃ st, c''.calls.find? (·.id = k.id) = some { k with stage := st } ∧
      ∀ d, Standing batch c d c'' st := by
  have hg := goes_of_step hstep
  have hfit := h'.fits k (List.mem_of_find?_eq_some hk)
  cases hst : k.stage with
  | dialling =>
    rw [hst] at hfit
    have hnone := session_of_goes_logon hg hfit (by simp [hst])
    rcases goes_of_dialling hst hg with ⟨-, rfl⟩ | rfl
    · refine ⟨k.failure (.io .refused), ?_, fun d => standing_failure rfl hnone⟩
      rw [Client.failConnect, (failAttempt_spec _ k _).1]
      exact find?_restage hk _
    · exact ⟨.loggingOn _ _, find?_restage hk _, fun d => trivial⟩
  | loggingOn n due =>
    rw [hst] at hfit
    have hnone := session_of_goes_logon hg hfit.1 (by simp [hst])
    rw [Client.step, hst] at hstep
    rcases logOn_cases hstep with ⟨e, he, hcalls⟩ | hcalls | hcalls
    · exact ⟨_, hcalls ▸ find?_restage hk _, fun d => standing_failure he hnone⟩
    · refine ⟨k.stage, hcalls ▸ hk, fun d => ?_⟩
      rw [hst]
      trivial
    · exact ⟨.beforeInstallation n, hcalls ▸ find?_restage hk _, fun d => trivial⟩
  | _ =>
    rw [Client.isDialling, hst] at hs
    cases hs

/-- The error of a failure that costs the session tells of no rejected listing. -/
theorem isRejection_of_fault (h : Wired config c) (he : e.isConnectionError = true ∨
    e.isProtocolViolation = true ∨ ∃ s, c.session = some s ∧ .error e ∈ s.inbound) :
    e.isRejection = false := by
  rcases he with he | he | ⟨s, hs, he⟩
  · exact isRejection_of_connection he
  · exact isRejection_of_violation he
  · obtain ⟨log, -, hin⟩ := h.inStep s hs
    exact isRejection_of_connection (hin.inbound e he).2

/-- The attempt has found a live session, which is that of `c`. -/
theorem taken_found (hc : Calm c c') {s : Session} (hs : c'.session = some s) :
    Taken c 0 [] c' := by
  obtain ⟨s₀, hs₀, hconn, hsub, hnext⟩ := hc.session s hs
  exact ⟨s₀, s, hs₀, hs, hconn, hsub, hnext⟩

theorem Taken.trades (h : Taken c d done c') {s : Session} {t : Tick} {id : UInt32}
    (hs : c'.session = some s) (hi : s.idOf? ⟨t.symbol, t.exchange⟩ = some id)
    (hs' : c''.session = some s) : Taken c d (done ++ [t]) c'' := by
  obtain ⟨b, s₀, hb, hs₀, hlike⟩ := h
  rw [hs] at hs₀
  cases hs₀
  refine ⟨b, s, hb, hs', ?_⟩
  rw [through_append, through_known ((hlike.idOf? _).symm.trans hi)]
  exact hlike

theorem Taken.asks (h : Taken c d done c') {s : Session} {t : Tick}
    (hs : c'.session = some s) (hi : s.idOf? ⟨t.symbol, t.exchange⟩ = none)
    (hs' : c''.session = some { s with inbound := [], nextId := s.nextId + 1 }) :
    Asked c d done t s.nextId c'' := by
  obtain ⟨b, s₀, hb, hs₀, hlike⟩ := h
  rw [hs] at hs₀
  cases hs₀
  exact ⟨b, _, hb, hs', (hlike.idOf? _).symm.trans hi, hlike.nextId, hlike.connection,
    hlike.subscriptions, congrArg (· + 1) hlike.nextId⟩

theorem Asked.confirmed {t : Tick} {id : UInt32} (h : Asked c d done t id c') {s : Session}
    {q : List (Except RelayError Wire.Frame)} (hs : c'.session = some s)
    (hs' : c''.session = some ({ s with inbound := q }.accept ⟨t.symbol, t.exchange⟩ id)) :
    Taken c d (done ++ [t]) c'' := by
  obtain ⟨b, s₀, hb, hs₀, hnone, rfl, hlike⟩ := h
  rw [hs] at hs₀
  cases hs₀
  have hlike' : (b.through done).takeId.2.Resembles { s with inbound := q } :=
    ⟨hlike.connection, hlike.subscriptions, hlike.nextId⟩
  refine ⟨b, _, hb, hs', ?_⟩
  rw [through_append, through_unknown hnone]
  exact hlike'.accept _ _

theorem Asked.kept {t : Tick} {id : UInt32} (h : Asked c d done t id c') {s : Session}
    {q : List (Except RelayError Wire.Frame)} (hs : c'.session = some s)
    (hs' : c''.session = some { s with inbound := q }) : Asked c d done t id c'' := by
  obtain ⟨b, s₀, hb, hs₀, hnone, hid, hlike⟩ := h
  rw [hs] at hs₀
  cases hs₀
  exact ⟨b, _, hb, hs', hnone, hid, hlike.connection, hlike.subscriptions, hlike.nextId⟩

/-- What an attempt has written that waits for an answer: the plan of the ticks before, and the
request. -/
theorem Asked.written {t : Tick} {id : UInt32} {rest : List Tick} (h : Asked c d done t id c')
    (hseat : Seated (done ++ t :: rest) c d c' new fun s =>
      trade id t :: (s.accept ⟨t.symbol, t.exchange⟩ id).plan rest) :
    new = c.plan d done ++ [.subscribe id t.symbol t.exchange] := by
  obtain ⟨b, s, hb, hs, hnone, rfl, hlike⟩ := h
  obtain ⟨s₀, hs₀, -, hplan⟩ := hseat
  rw [hs] at hs₀
  cases hs₀
  have hrest : (s.accept ⟨t.symbol, t.exchange⟩ (b.through done).nextId).plan rest =
      ((b.through done).adopt t).plan rest :=
    (hlike.accept ⟨t.symbol, t.exchange⟩ _).plan rest
  rw [plan_of_firstSession hb, plan_adopt hnone] at hplan
  simp only [hrest] at hplan
  have hall : (c.plan d done ++ [.subscribe (b.through done).nextId t.symbol t.exchange]) ++
      trade (b.through done).nextId t :: ((b.through done).adopt t).plan rest =
      new ++ trade (b.through done).nextId t :: ((b.through done).adopt t).plan rest := by
    rw [← hplan, List.append_assoc]
    rfl
  exact (List.append_cancel_right hall).symm

/-- Any other step of an attempt. -/
theorem Standing.goes (h' : Wired config c') (hk : c'.calls.find? (·.id = k.id) = some k)
    (ht : k.task = .publish batch again) (hns : Client.isDialling k = false)
    (htry : k.stage.outcome? = none) (hw : Writes c c' (c.seat d) new)
    (hm : Midway batch again c d c' new k.stage) (ho : Standing batch c d c' k.stage)
    (hg : Goes now k c' c'') :
    ∃ st, c''.calls.find? (·.id = k.id) = some { k with stage := st } ∧
      Standing batch c d c'' st := by
  have hout {st : Stage} (hs : k.stage = st)
      (h : Client.isDialling { k with stage := st } = true) : False := by
    rw [Client.isDialling, hs] at hns
    exact Bool.false_ne_true (hns.symm.trans h)
  cases hg with
  | enters => exact ⟨_, find?_restage hk _, trivial⟩
  | findsLive s hs hl hs' =>
    rw [hs] at hm
    obtain ⟨rfl, -, hcalm⟩ := hm
    obtain ⟨hcalls, -, hsession, hconns⟩ := connected_spec c' k
    refine ⟨k.readiness, hcalls ▸ find?_restage hk _, ?_⟩
    rw [readiness_publish ht]
    exact Taken.calm (taken_found hcalm hs') (calm_of_same hsession hconns)
  | findsNone =>
    obtain ⟨xs, hd⟩ := c'.dropSession_spec
    rw [hd]
    exact ⟨.dialling, find?_restage hk _, trivial⟩
  | refused hs => exact (hout hs rfl).elim
  | dials hs => exact (hout hs rfl).elim
  | hearsBeat n due x x' f b hs => exact (hout hs rfl).elim
  | welcomed n due x x' f v text hs => exact (hout hs rfl).elim
  | failsLogon n due x x' e hs => exact (hout hs rfl).elim
  | installs n hs =>
    rw [hs] at hm
    obtain ⟨rfl, rfl, -⟩ := hm
    obtain ⟨hcalls, -, hsession, -⟩ :=
      connected_spec { c'.dropSession with session := some (.start c.connections.length) } k
    refine ⟨k.readiness, ?_, ?_⟩
    · obtain ⟨xs, hd⟩ := c'.dropSession_spec
      rw [hcalls, hd]
      exact find?_restage hk _
    · rw [readiness_publish ht]
      exact ⟨_, _, rfl, hsession, .refl _⟩
  | begins s b a hs hl hs' ha hb =>
    rw [hs] at ho
    rw [ht] at hb
    cases hb
    obtain ⟨b, s', hb, hs'', hlike⟩ := ho
    exact ⟨.sending batch, find?_restage hk _, [], rfl, b, s', hb, hs'', hlike⟩
  | completes s hs =>
    rw [hs] at ho
    obtain ⟨done, rfl, htaken⟩ := ho
    refine ⟨.finished (.ok ()), find?_restage hk _, ?_⟩
    rw [List.append_nil]
    exact htaken.calm (calm_of_same rfl rfl)
  | trades s t rest id x x' hs hs' hi =>
    rw [hs] at ho
    obtain ⟨done, rfl, htaken⟩ := ho
    exact ⟨.sending rest, find?_restage hk _, done ++ [t], by simp, htaken.trades hs' hi hs'⟩
  | asks s t rest x x' hs hs' hi =>
    rw [hs] at ho
    obtain ⟨done, rfl, htaken⟩ := ho
    exact ⟨_, find?_restage hk (.subscribing t rest s.nextId _), done, rfl,
      htaken.asks hs' hi rfl⟩
  | isConfirmed s t rest id due f q x x' hs hs' =>
    rw [hs] at ho
    obtain ⟨done, rfl, hasked⟩ := ho
    exact ⟨.sending rest, find?_restage hk _, done ++ [t], by simp, hasked.confirmed hs' rfl⟩
  | isRejected s t rest id due f q reason hs hs' =>
    rw [hs] at ho hm
    obtain ⟨done, rfl, hasked⟩ := ho
    obtain ⟨hd, hseat⟩ := hm
    refine ⟨.finished (.error _), find?_restage hk _, .inr ⟨done, t, rest, id, reason, rfl, rfl,
      hasked.kept hs' rfl, ?_⟩⟩
    rw [← hasked.written hseat]
    exact hw.congr rfl
  | failsSending s' e hs hl hs' he =>
    refine ⟨k.failure e, ?_, ?_⟩
    · rw [failSending_calls]
      exact find?_restage hk _
    · refine standing_failure (isRejection_of_fault h' he) ?_
      rw [h'.drops hs' he]
      exact (failAttempt_spec _ k e).2.2.1.trans c'.dropSession_session
  | retires e hs => rw [hs] at htry; cases htry
  | restarts e task hs => rw [hs] at htry; cases htry
  | prepares hs => rw [hs] at hm; exact hm.elim
  | closes hs => rw [hs] at hm; exact hm.elim

/-- A call that begins an attempt keeps its session in such a standing while it tries. -/
theorem Run.standing {id : Nat} {trace : List Stage} (hr : Reachable config c)
    (h₀ : Begins id batch again c) (h : Run id c trace c')
    (htry : ∀ st ∈ trace, st.outcome? = none) :
    ∃ k, c'.calls.find? (·.id = id) = some k ∧ Standing batch c (dials trace) c' k.stage := by
  induction h with
  | here => exact ⟨_, h₀, trivial⟩
  | @goes trace c' c'' hrun now k hk hs ih =>
    have htry' : ∀ st ∈ trace, st.outcome? = none := fun st hst =>
      htry st (List.mem_append_left _ hst)
    obtain ⟨k', hk', ho⟩ := ih htry'
    obtain ⟨k'', new, hk'', ht, hw, hm⟩ := hrun.midway hr h₀ htry'
    rw [hk] at hk' hk''
    cases hk'
    cases hk''
    have hid : k.id = id := by simpa using List.find?_some hk
    subst hid
    have hwired := (hrun.reachable hr).wired
    cases hdial : Client.isDialling k with
    | true =>
      obtain ⟨st, hst, hall⟩ := Standing.connects hwired hk hdial hs
      exact ⟨_, hst, hall _⟩
    | false =>
      have hsame : dials (trace ++ [k.stage]) = dials trace := by
        rw [dials_concat]
        cases hst : k.stage <;> first | rfl | (rw [Client.isDialling, hst] at hdial; cases hdial)
      obtain ⟨st, hst, ho'⟩ :=
        Standing.goes hwired hk ht hdial (htry k.stage (by simp)) hw hm ho (goes_of_step hs)
      rw [hsame]
      exact ⟨_, hst, ho'⟩
  | around _ ha ih =>
    obtain ⟨k, hk, ho⟩ := ih htry
    obtain ⟨hcalm, hcalls⟩ := calm_of_around ha
    exact ⟨k, hcalls ▸ hk, ho.calm hcalm⟩

end Standing

end Relay
end MarketFeed
