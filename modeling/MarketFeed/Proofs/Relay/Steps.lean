import MarketFeed.Relay.Client

/-!
# MarketFeed.Proofs.Relay.Steps

What one step of a call can do, and what can happen to a client.

* `Goes` — the steps of a call, one constructor for each; `goes_of_step` reads it off `step`.
* `Around` — the reader goes on, the peer does anything to a connection, the server begins or
  ceases to listen.
* `Move`, `Reachable` — calls of any kind are started at any time, go on in any order and at any
  times, may be forgotten when they have finished, and may be given up while they send nothing.
-/

namespace MarketFeed
namespace Relay

/-! ## Small facts of the operations -/

/-- What passed over each connection. -/
def Client.logs (c : Client) : List (List Exchange) := c.connections.map Connection.log

/-- The call is past its logon: it waits for the session to send on, or sends. -/
def Stage.isSending : Stage → Bool
  | .beforeSending | .sending _ | .subscribing .. => true
  | _ => false

/-- A failure after which the same batch is tried again. -/
def Call.retries (k : Call) (e : RelayError) : Bool :=
  match k.task with
  | .publish _ false => e.isConnectionError
  | _ => false

/-- Where a call is when its attempt has failed. -/
def Call.failure (k : Call) (e : RelayError) : Stage :=
  if k.retries e then .beforeTeardown e else .finished (.error e)

/-- Where a call is when there is a live session. -/
def Call.readiness (k : Call) : Stage :=
  match k.task with
  | .publish .. => .beforeSending
  | _ => .finished (.ok ())

namespace Client

theorem logs_getElem? (c : Client) (n : Nat) : c.logs[n]? = c.connections[n]?.map Connection.log :=
  List.getElem?_map

theorem length_logs (c : Client) : c.logs.length = c.connections.length := List.length_map _

/-- A connection that is put in the place of another changes that one log. -/
theorem onConnection_logs (c : Client) (n : Nat) (x : Connection) :
    (c.onConnection n fun _ => x).logs = c.logs.set n x.log := by
  apply List.ext_getElem?
  intro i
  simp only [logs, onConnection, List.getElem?_map, List.getElem?_modify, List.getElem?_set,
    List.length_map]
  by_cases hi : n = i
  · subst hi
    cases hx : c.connections[n]? with
    | none => simp [List.getElem?_eq_none_iff.1 hx]
    | some y => simp [(List.getElem?_eq_some_iff.1 hx).1]
  · simp [hi]

/-- A change that spares the log of a connection spares all logs. -/
theorem onConnection_logs_of_log {c : Client} {n : Nat} {f : Connection → Connection}
    (h : ∀ x, c.connections[n]? = some x → (f x).log = x.log) :
    (c.onConnection n f).logs = c.logs := by
  apply List.ext_getElem?
  intro i
  simp only [logs, onConnection, List.getElem?_map, List.getElem?_modify]
  by_cases hi : n = i
  · subst hi
    cases hx : c.connections[n]? with
    | none => rfl
    | some x => simpa using h x hx
  · simp [hi]

theorem onConnection_self {c : Client} {n : Nat} {x : Connection} (h : c.connections[n]? = some x) :
    (c.onConnection n fun _ => x) = c := by
  have hm : (c.connections.modify n fun _ => x) = c.connections := by
    apply List.ext_getElem?
    intro i
    rw [List.getElem?_modify]
    by_cases hi : n = i
    · subst hi; simp [h]
    · simp [hi]
  simp only [onConnection, hm]

/-- A change to the connection that was dialled last. -/
theorem modify_concat {l : List Connection} {x : Connection} {f : Connection → Connection} :
    (l ++ [x]).modify l.length f = l ++ [f x] := by
  induction l with
  | nil => rfl
  | cons y l ih => simpa [List.modify_cons] using ih

theorem dropSession_session (c : Client) : c.dropSession.session = none := by
  unfold dropSession
  split
  · rfl
  · assumption

theorem dropSession_logs (c : Client) : c.dropSession.logs = c.logs := by
  unfold dropSession
  split
  · exact onConnection_logs_of_log fun _ _ => rfl
  · rfl

theorem dropSession_of_none {c : Client} (h : c.session = none) : c.dropSession = c := by
  unfold dropSession
  rw [h]

theorem dropSession_congr {c : Client} {s s' : Session} (h : c.session = some s)
    (hn : s'.connection = s.connection) :
    dropSession { c with session := some s' } = c.dropSession := by
  simp only [dropSession, h, hn]
  rfl

theorem failAttempt_eq (c : Client) (k : Call) (e : RelayError) :
    c.failAttempt k e = if k.retries e then (c.joinDial k.id).setStage k.id (.beforeTeardown e)
      else c.finish k.id (.error e) := by
  unfold failAttempt Call.retries
  split <;> simp_all

/-- A rejected listing costs neither the session nor a second attempt. -/
theorem failSending_rejected (c : Client) (k : Call) (symbol exchange reason : String) :
    c.failSending k (.subscriptionRejected symbol exchange reason) =
      (c.leaveSession k.id).finish k.id
        (.error (.subscriptionRejected symbol exchange reason)) := by
  simp only [failSending, failAttempt_eq]
  have hr : k.retries (.subscriptionRejected symbol exchange reason) = false := by
    unfold Call.retries
    split <;> rfl
  rw [hr]
  rfl

end Client

theorem write_log {x x' : Connection} {m : Wire.Message} (h : x.write m = .ok x') :
    x'.log = x.log ++ [Exchange.wrote m] := by
  unfold Connection.write at h
  split at h
  · split at h
    · cases h
    · cases h; rfl
  · cases h; rfl

/-- A message cannot be written only to a peer that has closed. -/
theorem write_error {x : Connection} {m : Wire.Message} {e : RelayError}
    (h : x.write m = .error e) : e.isConnectionError = true ∧ x.peerClosed = true := by
  unfold Connection.write at h
  split at h
  · rename_i hp
    split at h
    · cases h; exact ⟨rfl, hp⟩
    · cases h
  · cases h

/-! ## The steps of a call -/

/-- The session that is left when sending fails: it may have lost some of its queue. -/
def Trimmed : Option Session → Option Session → Prop
  | none, none => True
  | some s, some s' => s'.connection = s.connection ∧ ∀ i ∈ s'.inbound, i ∈ s.inbound
  | _, _ => False

/-- Why a logon fails: too late, or by what arrives instead of a welcome. -/
inductive LogonFault (now due : Nat) (x : Connection) : Prop where
  | late (h : due ≤ now)
  | broken (e : RelayError) (hn : x.next.1 = .failure e)
  | denied (f : Wire.Frame) (hn : x.next.1 = .frame f)
      (hw : ∀ v text, Wire.Message.decode f ≠ .ok (.logonResponse v logonAccepted text))

/-- Why sending fails. -/
inductive SendingFault (now : Nat) (k : Call) (c : Client) : Prop where
  | missing (h : c.session = none ∨ ∀ batch again, k.task ≠ .publish batch again)
  | dead (s : Session) (hc : c.session = some s) (ha : s.alive = false)
  | queued (s : Session) (e : RelayError) (hc : c.session = some s) (he : .error e ∈ s.inbound)
  | unwritten (s : Session) (hc : c.session = some s)
      (hx : ∀ x, c.connections[s.connection]? = some x → x.peerClosed = true)
  | late (t : Tick) (rest : List Tick) (id : UInt32) (due : Nat)
      (hs : k.stage = .subscribing t rest id due) (h : due ≤ now)
  | denied (s : Session) (t : Tick) (rest : List Tick) (id : UInt32) (due : Nat) (f : Wire.Frame)
      (q : List (Except RelayError Wire.Frame)) (e : RelayError)
      (hs : k.stage = .subscribing t rest id due) (hc : c.session = some s)
      (hq : s.inbound = .ok f :: q) (hj : Session.judge id ⟨t.symbol, t.exchange⟩ f = .error e)

/-- One step of a call, with what has to hold for it. -/
inductive Goes (now : Nat) (k : Call) (c : Client) : Client → Prop where
  | enters (hs : k.stage = .beforeConnect) (hl : c.dialLock.heldBy k.id = true) :
      Goes now k c ((c.joinSession k.id).setStage k.id .beforeInspection)
  | findsLive (s : Session) (hs : k.stage = .beforeInspection)
      (hl : c.sessionLock.heldBy k.id = true) (hc : c.session = some s) (ha : s.alive = true) :
      Goes now k c (c.connected k)
  | findsNone (hs : k.stage = .beforeInspection) (hl : c.sessionLock.heldBy k.id = true)
      (ha : ∀ s, c.session = some s → s.alive = false) :
      Goes now k c
        { (c.dropSession.leaveSession k.id).setStage k.id .dialling with connecting := true }
  | refused (hs : k.stage = .dialling) (hr : c.listening = false) :
      Goes now k c (c.failConnect k (.io .refused))
  | dials (hs : k.stage = .dialling) (hr : c.listening = true) :
      Goes now k c (Client.setStage
        { c with connections := c.connections ++
            [{ Connection.fresh with log := [.wrote (Client.logonRequest c.config)] }] }
        k.id (.loggingOn c.connections.length (c.deadline now)))
  | hearsBeat (n due : Nat) (x x' : Connection) (f : Wire.Frame) (d : UInt32)
      (hs : k.stage = .loggingOn n due) (hx : c.connections[n]? = some x)
      (hn : x.next = (.frame f, x')) (hd : Wire.Message.decode f = .ok (.heartbeat d)) :
      Goes now k c (c.onConnection n fun _ => x')
  | welcomed (n due : Nat) (x x' : Connection) (f : Wire.Frame) (v : UInt16) (text : String)
      (hs : k.stage = .loggingOn n due) (hx : c.connections[n]? = some x)
      (hn : x.next = (.frame f, x'))
      (hd : Wire.Message.decode f = .ok (.logonResponse v logonAccepted text)) :
      Goes now k c ((Client.joinSession { c.onConnection n fun _ => x' with connecting := false }
        k.id).setStage k.id (.beforeInstallation n))
  | failsLogon (n due : Nat) (x x' : Connection) (e : RelayError) (hs : k.stage = .loggingOn n due)
      (hx : c.connections[n]? = some x) (hn : x' = x ∨ x' = x.next.2)
      (hf : LogonFault now due x) : Goes now k c ((c.onConnection n fun _ => x').failLogon k n e)
  | installs (n : Nat) (hs : k.stage = .beforeInstallation n)
      (hl : c.sessionLock.heldBy k.id = true) :
      Goes now k c (Client.connected { c.dropSession with session := some (.start n) } k)
  | begins (s : Session) (batch : List Tick) (again : Bool) (hs : k.stage = .beforeSending)
      (hl : c.sessionLock.heldBy k.id = true) (hc : c.session = some s) (ha : s.alive = true)
      (ht : k.task = .publish batch again) :
      Goes now k c (c.setStage k.id (.sending batch))
  | completes (s : Session) (hs : k.stage = .sending []) (hc : c.session = some s) :
      Goes now k c ((c.leaveSession k.id).finish k.id (.ok ()))
  | trades (s : Session) (t : Tick) (rest : List Tick) (id : UInt32) (x x' : Connection)
      (hs : k.stage = .sending (t :: rest)) (hc : c.session = some s)
      (hi : s.idOf? ⟨t.symbol, t.exchange⟩ = some id) (hx : c.connections[s.connection]? = some x)
      (hw : x.write (trade id t) = .ok x') :
      Goes now k c ((c.onConnection s.connection fun _ => x').setStage k.id (.sending rest))
  | asks (s : Session) (t : Tick) (rest : List Tick) (x x' : Connection)
      (hs : k.stage = .sending (t :: rest)) (hc : c.session = some s)
      (hi : s.idOf? ⟨t.symbol, t.exchange⟩ = none) (hq : Session.firstError s.inbound = (none, []))
      (hx : c.connections[s.connection]? = some x)
      (hw : x.write (.subscribe s.nextId t.symbol t.exchange) = .ok x') :
      Goes now k c ((Client.onConnection
        { c with session := some { s with inbound := [], nextId := s.nextId + 1 } }
        s.connection fun _ => x').setStage k.id (.subscribing t rest s.nextId (c.deadline now)))
  | isConfirmed (s : Session) (t : Tick) (rest : List Tick) (id : UInt32) (due : Nat)
      (f : Wire.Frame) (q : List (Except RelayError Wire.Frame)) (x x' : Connection)
      (hs : k.stage = .subscribing t rest id due) (hc : c.session = some s)
      (hq : s.inbound = .ok f :: q) (hj : Session.judge id ⟨t.symbol, t.exchange⟩ f = .ok ())
      (hx : c.connections[s.connection]? = some x) (hw : x.write (trade id t) = .ok x') :
      Goes now k c ((Client.onConnection
        { c with session := some ({ s with inbound := q }.accept ⟨t.symbol, t.exchange⟩ id) }
        s.connection fun _ => x').setStage k.id (.sending rest))
  | isRejected (s : Session) (t : Tick) (rest : List Tick) (id : UInt32) (due : Nat)
      (f : Wire.Frame) (q : List (Except RelayError Wire.Frame)) (reason : String)
      (hs : k.stage = .subscribing t rest id due) (hc : c.session = some s)
      (hq : s.inbound = .ok f :: q)
      (hj : Session.judge id ⟨t.symbol, t.exchange⟩ f =
        .error (.subscriptionRejected t.symbol t.exchange reason)) :
      Goes now k c ((Client.leaveSession { c with session := some { s with inbound := q } }
        k.id).finish k.id (.error (.subscriptionRejected t.symbol t.exchange reason)))
  | failsSending (s' : Option Session) (e : RelayError) (hs : k.stage.isSending = true)
      (hl : k.stage = .beforeSending → c.sessionLock.heldBy k.id = true)
      (hc : Trimmed c.session s')
      (he : e.isConnectionError = true ∨ e.isProtocolViolation = true ∨
        ∃ s, c.session = some s ∧ .error e ∈ s.inbound)
      (hf : SendingFault now k c) :
      Goes now k c (Client.failSending { c with session := s' } k e)
  | retires (e : RelayError) (hs : k.stage = .beforeTeardown e)
      (hl : c.dialLock.heldBy k.id = true) :
      Goes now k c ((c.joinSession k.id).setStage k.id (.tearingDown e))
  | restarts (e : RelayError) (task : Task) (hs : k.stage = .tearingDown e)
      (hl : c.sessionLock.heldBy k.id = true)
      (ht : ∀ batch again, k.task = .publish batch again → task = .publish batch true) :
      Goes now k c (((((c.dropSession.leaveSession k.id).leaveDial k.id).setTask k.id task).joinDial
        k.id).setStage k.id .beforeConnect)
  | prepares (hs : k.stage = .beforeClose) (hl : c.dialLock.heldBy k.id = true) :
      Goes now k c ((c.joinSession k.id).setStage k.id .closing)
  | closes (hs : k.stage = .closing) (hl : c.sessionLock.heldBy k.id = true) :
      Goes now k c (((c.logOff.leaveSession k.id).leaveDial k.id).finish k.id (.ok ()))

theorem firstError_none {q r : List (Except RelayError Wire.Frame)}
    (h : Session.firstError q = (none, r)) : r = [] := by
  induction q with
  | nil => cases h; rfl
  | cons i q ih =>
    cases i with
    | ok f => exact ih h
    | error e => cases h

theorem firstError_some {q r : List (Except RelayError Wire.Frame)} {e : RelayError}
    (h : Session.firstError q = (some e, r)) : .error e ∈ q ∧ ∀ i ∈ r, i ∈ q := by
  induction q with
  | nil => cases h
  | cons i q ih =>
    cases i with
    | ok f =>
      obtain ⟨he, hr⟩ := ih h
      exact ⟨.tail _ he, fun i hi => .tail _ (hr i hi)⟩
    | error e' =>
      cases h
      exact ⟨.head _, fun i hi => .tail _ hi⟩

/-- An answer that is no confirmation breaks the connection or the rules, or rejects the listing. -/
theorem judge_error {id : UInt32} {l : Listing} {f : Wire.Frame} {e : RelayError}
    (h : Session.judge id l f = .error e) :
    e.isConnectionError = true ∨ e.isProtocolViolation = true ∨
      ∃ reason, e = .subscriptionRejected l.symbol l.exchange reason := by
  unfold Session.judge at h
  split at h
  · rename_i d _
    cases h
    cases d with
    | malformed m => exact .inl rfl
    | unexpected code => exact .inr (.inl rfl)
  · split at h
    · cases h; exact .inr (.inl rfl)
    · split at h
      · cases h; exact .inr (.inr ⟨_, rfl⟩)
      · cases h
  · cases h; exact .inl rfl
  · cases h; exact .inr (.inl rfl)

/-- Why the reader has ended stands in its queue, or else the peer has closed. -/
theorem isConnectionError_terminal {c : Client} {s : Session} (hc : c.session = some s) :
    s.terminalError.isConnectionError = true ∨ s.terminalError.isProtocolViolation = true ∨
      ∃ s', c.session = some s' ∧ .error s.terminalError ∈ s'.inbound := by
  unfold Session.terminalError
  cases hq : Session.firstError s.inbound with
  | mk fault left =>
    cases fault with
    | none => exact .inl rfl
    | some e => exact .inr (.inr ⟨s, hc, (firstError_some hq).1⟩)

section Reading

variable {now : Nat} {k : Call} {c c' : Client}

theorem Client.write_cases (c : Client) (n : Nat) (m : Wire.Message) :
    (∃ x x', c.connections[n]? = some x ∧ x.write m = .ok x' ∧
      c.write n m = .ok (c.onConnection n fun _ => x')) ∨
    ∃ e, c.write n m = .error e ∧ e.isConnectionError = true ∧
      ∀ x, c.connections[n]? = some x → x.peerClosed = true := by
  unfold Client.write
  split
  · rename_i x hx
    cases hw : x.write m with
    | ok x' => exact .inl ⟨x, x', hx, hw, rfl⟩
    | error e =>
      obtain ⟨he, hp⟩ := write_error hw
      refine .inr ⟨e, rfl, he, ?_⟩
      intro y hy
      rw [hx] at hy
      cases hy
      exact hp
  · rename_i hx
    refine .inr ⟨.notConnected, rfl, rfl, ?_⟩
    intro y hy
    rw [hx] at hy
    cases hy

theorem goes_of_dial (hs : k.stage = .dialling) : Goes now k c (c.dial k now) := by
  unfold Client.dial
  split
  · rename_i hr
    have hw : Client.write { c with connections := c.connections ++ [Connection.fresh] }
        c.connections.length (Client.logonRequest c.config) =
        .ok { c with connections := c.connections ++
          [{ Connection.fresh with log := [.wrote (Client.logonRequest c.config)] }] } := by
      simp [Client.write, Client.onConnection, Connection.write, Connection.fresh, Except.map,
        Client.modify_concat]
    simp only [hw]
    exact .dials hs hr
  · rename_i hr
    exact .refused hs (by simpa using hr)

theorem goes_of_logOn {n due : Nat} (hs : k.stage = .loggingOn n due)
    (h : c.logOn? k n due now = some c') : Goes now k c c' := by
  unfold Client.logOn? at h
  cases hx : c.connections[n]? with
  | none => simp [hx] at h
  | some x =>
    simp only [hx] at h
    split at h
    · rename_i f x' hn
      cases h
      have hlast : x' = x.next.2 := by rw [hn]
      have hfirst : x.next.1 = .frame f := by rw [hn]
      unfold Client.judgeLogon
      split
      · rename_i e hd
        exact .failsLogon n due x x' _ hs hx (.inr hlast)
          (.denied f hfirst fun v text => by rw [hd]; nofun)
      · rename_i d hd
        exact .hearsBeat n due x x' f d hs hx hn hd
      · rename_i v result text hd
        split
        · rename_i hr
          subst hr
          exact .welcomed n due x x' f v text hs hx hn hd
        · rename_i hr
          refine .failsLogon n due x x' _ hs hx (.inr hlast) (.denied f hfirst ?_)
          intro v' text' heq
          rw [hd] at heq
          cases heq
          exact hr rfl
      · rename_i m _ hno hd
        refine .failsLogon n due x x' _ hs hx (.inr hlast) (.denied f hfirst ?_)
        intro v text heq
        rw [hd] at heq
        cases heq
        exact hno _ _ _ rfl
    · rename_i e x' hn
      cases h
      exact .failsLogon n due x x' e hs hx (.inr (by rw [hn])) (.broken e (by rw [hn]))
    · split at h
      · rename_i hdue
        cases h
        have hlate : Goes now k c (Client.failLogon (c.onConnection n fun _ => x) k n _) :=
          .failsLogon n due x x (.timeout "logon response") hs hx (.inl rfl) (.late hdue)
        rwa [Client.onConnection_self hx] at hlate
      · cases h

theorem goes_of_sendNext {s : Session} {rest : List Tick} (hs : k.stage = .sending rest)
    (hc : c.session = some s) : Goes now k c (c.sendNext k s rest now) := by
  have hsend : k.stage.isSending = true := by rw [hs]; rfl
  have hnot : k.stage = .beforeSending → c.sessionLock.heldBy k.id = true := by simp [hs]
  have hsame : Trimmed c.session c.session := by rw [hc]; exact ⟨rfl, fun _ hi => hi⟩
  cases rest with
  | nil => exact .completes s hs hc
  | cons t rest =>
    simp only [Client.sendNext]
    split
    · rename_i id hi
      rcases c.write_cases s.connection (trade id t) with ⟨x, x', hx, hw, he⟩ | ⟨e, he, hce, hp⟩
      · rw [he]
        exact .trades s t rest id x x' hs hc hi hx hw
      · rw [he]
        exact .failsSending c.session e hsend hnot hsame (.inl hce) (.unwritten s hc hp)
    · rename_i hi
      simp only [Session.discardStale]
      cases hq : Session.firstError s.inbound with
      | mk fault left =>
        cases fault with
        | some e =>
          obtain ⟨hmem, hsub⟩ := firstError_some hq
          refine .failsSending _ e hsend hnot ?_ (.inr (.inr ⟨s, hc, hmem⟩)) (.queued s e hc hmem)
          rw [hc]
          exact ⟨rfl, hsub⟩
        | none =>
          have hleft := firstError_none hq
          subst hleft
          simp only [Session.takeId]
          rcases Client.write_cases
            { c with session := some { s with inbound := [], nextId := s.nextId + 1 } }
            s.connection (.subscribe s.nextId t.symbol t.exchange)
            with ⟨x, x', hx, hw, he⟩ | ⟨e, he, hce, hp⟩
          · rw [he]
            exact .asks s t rest x x' hs hc hi hq hx hw
          · rw [he]
            refine .failsSending _ e hsend hnot ?_ (.inl hce) (.unwritten s hc hp)
            rw [hc]
            exact ⟨rfl, fun _ hi => absurd hi (by simp)⟩

theorem goes_of_subscribe {s : Session} {t : Tick} {rest : List Tick} {id : UInt32} {due : Nat}
    (hs : k.stage = .subscribing t rest id due) (hc : c.session = some s)
    (h : c.subscribe? k s t rest id due now = some c') : Goes now k c c' := by
  have hsend : k.stage.isSending = true := by rw [hs]; rfl
  have hnot : k.stage = .beforeSending → c.sessionLock.heldBy k.id = true := by simp [hs]
  have hsame : Trimmed c.session c.session := by rw [hc]; exact ⟨rfl, fun _ hi => hi⟩
  have htrim : ∀ q : List (Except RelayError Wire.Frame), (∀ i ∈ q, i ∈ s.inbound) →
      Trimmed c.session (some { s with inbound := q }) := by
    intro q hq
    rw [hc]
    exact ⟨rfl, hq⟩
  unfold Client.subscribe? Session.answer at h
  cases hq : s.inbound with
  | nil =>
    simp only [hq] at h
    by_cases ha : s.alive = true
    · simp only [ha, if_true] at h
      split at h
      · rename_i hdue
        cases h
        exact .failsSending c.session _ hsend hnot hsame (.inl rfl) (.late t rest id due hs hdue)
      · cases h
    · simp only [ha] at h
      cases h
      refine .failsSending _ _ hsend hnot ?_ (.inl rfl) (.dead s hc (by simpa using ha))
      rw [hc]
      exact ⟨rfl, fun _ hi => hi⟩
  | cons i q =>
    have hmem : ∀ j ∈ q, j ∈ s.inbound := by
      intro j hj
      rw [hq]
      exact .tail _ hj
    cases i with
    | error e =>
      simp only [hq] at h
      cases h
      have hin : .error e ∈ s.inbound := by simp [hq]
      exact .failsSending _ e hsend hnot (htrim q hmem) (.inr (.inr ⟨s, hc, hin⟩))
        (.queued s e hc hin)
    | ok f =>
      simp only [hq] at h
      cases hj : Session.judge id ⟨t.symbol, t.exchange⟩ f with
      | error e =>
        simp only [hj] at h
        cases h
        have hdenied : SendingFault now k c := .denied s t rest id due f q e hs hc hq hj
        rcases judge_error hj with he | he | ⟨reason, rfl⟩
        · exact .failsSending _ e hsend hnot (htrim q hmem) (.inl he) hdenied
        · exact .failsSending _ e hsend hnot (htrim q hmem) (.inr (.inl he)) hdenied
        · rw [Client.failSending_rejected]
          exact .isRejected s t rest id due f q reason hs hc hq hj
      | ok _ =>
        simp only [hj] at h
        rcases Client.write_cases
          { c with session := some ({ s with inbound := q }.accept ⟨t.symbol, t.exchange⟩ id) }
          s.connection (trade id t) with ⟨x, x', hx, hw, he⟩ | ⟨e, he, hce, hp⟩
        · have he' := he
          simp only [Session.accept] at h he'
          rw [he'] at h
          cases h
          exact .isConfirmed s t rest id due f q x x' hs hc hq hj hx hw
        · simp only [Session.accept] at h he
          rw [he] at h
          cases h
          refine .failsSending _ e hsend hnot ?_ (.inl hce) (.unwritten s hc hp)
          rw [hc]
          exact ⟨rfl, hmem⟩

theorem goes_of_step (h : c.step now k = some c') : Goes now k c c' := by
  unfold Client.step at h
  split at h
  · rename_i hs
    split at h
    · rename_i hl; cases h; exact .enters hs hl
    · cases h
  · rename_i hs
    split at h
    · rename_i hl
      split at h
      · rename_i s hc
        split at h
        · rename_i ha; cases h; exact .findsLive s hs hl hc ha
        · rename_i ha
          cases h
          refine .findsNone hs hl ?_
          intro s' hc'
          rw [hc] at hc'
          cases hc'
          simpa using ha
      · rename_i hc
        cases h
        have hnone : Goes now k c _ :=
          .findsNone hs hl (fun s hc' => by rw [hc] at hc'; cases hc')
        rwa [Client.dropSession_of_none hc] at hnone
    · cases h
  · rename_i hs
    cases h
    exact goes_of_dial hs
  · rename_i n due hs
    exact goes_of_logOn hs h
  · rename_i n hs
    split at h
    · rename_i hl; cases h; exact .installs n hs hl
    · cases h
  · rename_i hs
    have hsend : k.stage.isSending = true := by rw [hs]; rfl
    split at h
    · rename_i hl
      have hsame : Trimmed c.session c.session := by
        cases c.session with
        | none => trivial
        | some s => exact ⟨rfl, fun _ hi => hi⟩
      split at h
      · rename_i s batch again hc ht
        split at h
        · rename_i ha; cases h; exact .begins s batch again hs hl hc ha ht
        · rename_i ha
          cases h
          exact .failsSending c.session _ hsend (fun _ => hl) hsame (isConnectionError_terminal hc)
            (.dead s hc (by simpa using ha))
      · rename_i hno
        cases h
        refine .failsSending c.session _ hsend (fun _ => hl) hsame (.inl rfl) (.missing ?_)
        cases hc : c.session with
        | none => exact .inl rfl
        | some s => exact .inr fun batch again ht => hno s batch again hc ht
    · cases h
  · rename_i rest hs
    have hsend : k.stage.isSending = true := by rw [hs]; rfl
    split at h
    · rename_i s hc; cases h; exact goes_of_sendNext hs hc
    · rename_i hc
      cases h
      exact .failsSending c.session _ hsend (by simp [hs]) (by rw [hc]; trivial) (.inl rfl)
        (.missing (.inl hc))
  · rename_i t rest id due hs
    have hsend : k.stage.isSending = true := by rw [hs]; rfl
    split at h
    · rename_i s hc; exact goes_of_subscribe hs hc h
    · rename_i hc
      cases h
      exact .failsSending c.session _ hsend (by simp [hs]) (by rw [hc]; trivial) (.inl rfl)
        (.missing (.inl hc))
  · rename_i e hs
    split at h
    · rename_i hl; cases h; exact .retires e hs hl
    · cases h
  · rename_i e hs
    split at h
    · rename_i hl
      cases h
      refine .restarts e _ hs hl ?_
      intro batch again ht
      rw [ht]
    · cases h
  · rename_i hs
    split at h
    · rename_i hl; cases h; exact .prepares hs hl
    · cases h
  · rename_i hs
    split at h
    · rename_i hl; cases h; exact .closes hs hl
    · cases h
  · cases h

end Reading

/-! ## What can happen -/

/-- The call holds the session while it sends. -/
def Stage.ownsSession : Stage → Bool
  | .sending _ | .subscribing .. => true
  | _ => false

/-- What can happen to a client besides its calls. -/
inductive Around (c : Client) : Client → Prop where
  | reads {c' : Client} (h : c.read = some c') : Around c c'
  /-- The peer, or the net, does anything to a connection but what the client alone does. -/
  | disturbs (n : Nat) (x x' : Connection) (hx : c.connections[n]? = some x)
      (hl : x'.log = x.log) (hc : x'.clientClosed = x.clientClosed) :
      Around c (c.onConnection n fun _ => x')
  | listens (b : Bool) : Around c { c with listening := b }

inductive Move (c : Client) : Client → Prop where
  | goes {c' : Client} (now : Nat) (k : Call) (hk : c.calls.find? (·.id = k.id) = some k)
      (h : c.step now k = some c') : Move c c'
  | around {c' : Client} (h : Around c c') : Move c c'
  | calls (task : Task) (ht : ∀ batch, task ≠ .publish batch true) : Move c (c.call task).2
  | forgets (k : Call) (r : Except RelayError Unit) (hk : k ∈ c.calls)
      (hs : k.stage = .finished r) : Move c (c.forget k.id)
  | givesUp (k : Call) (hk : c.calls.find? (·.id = k.id) = some k)
      (hs : k.stage.ownsSession = false) : Move c (c.abandon k.id)

/-- The clients that can come about with a configuration. -/
inductive Reachable (config : RelayConfig) : Client → Prop where
  | new : Reachable config (.new config)
  | move {c c' : Client} (h : Reachable config c) (hm : Move c c') : Reachable config c'

theorem enqueue_connection (s : Session) (i : Except RelayError Wire.Frame) :
    (s.enqueue i).connection = s.connection := by
  unfold Session.enqueue
  split <;> rfl

/-- The reader goes on: it has taken a frame, or it has ended. -/
theorem read_cases {c c' : Client} (h : c.read = some c') :
    ∃ s x x', c.session = some s ∧ s.alive = true ∧ c.connections[s.connection]? = some x ∧
      ((∃ f, x.next = (.frame f, x') ∧ f.code = Wire.MessageKind.heartbeat.code ∧
        c' = { c.onConnection s.connection fun _ => x' with session := some s }) ∨
      (∃ f, x.next = (.frame f, x') ∧ f.code ≠ Wire.MessageKind.heartbeat.code ∧
        c' = { c.onConnection s.connection fun _ => x' with session := some (s.enqueue (.ok f)) }) ∨
      ∃ e, x.next = (.failure e, x') ∧ c' = { c.onConnection s.connection fun _ => x' with
        session := some ({ s with alive := false }.enqueue (.error e)) }) := by
  unfold Client.read at h
  split at h
  · cases h
  · rename_i s hs
    split at h
    · rename_i ha
      split at h
      · cases h
      · rename_i x hx
        cases hn : x.next with
        | mk a x' =>
          simp only [hn] at h
          obtain ⟨s', hr, rfl⟩ := Option.map_eq_some_iff.1 h
          refine ⟨s, x, x', hs, ha, hx, ?_⟩
          cases a with
          | frame f =>
            simp only [Session.receive] at hr
            split at hr
            · rename_i hf; cases hr; exact .inl ⟨f, hn, hf, rfl⟩
            · rename_i hf
              cases hr
              rw [enqueue_connection]
              exact .inr (.inl ⟨f, hn, hf, rfl⟩)
          | failure e =>
            cases hr
            rw [enqueue_connection]
            exact .inr (.inr ⟨e, hn, rfl⟩)
          | nothing => cases hr
    · cases h

/-- A frame is taken off a connection and noted in its log; a failure leaves no note. -/
theorem next_log {x x' : Connection} {a : Arrival} (h : x.next = (a, x')) :
    (∀ f, a = .frame f → x'.log = x.log ++ [Exchange.took f]) ∧
      ((∀ f, a ≠ .frame f) → x'.log = x.log) := by
  unfold Connection.next at h
  split at h
  · cases h
    refine ⟨?_, fun hn => absurd rfl (hn _)⟩
    intro f hf
    cases hf
    rfl
  · cases h; exact ⟨nofun, fun _ => rfl⟩
  · split at h
    · cases h; exact ⟨nofun, fun _ => rfl⟩
    · cases h; exact ⟨nofun, fun _ => rfl⟩

/-- Whatever is found, the log gains one frame at most. -/
theorem log_next (x : Connection) :
    x.next.2.log = x.log ∨ ∃ f, x.next.2.log = x.log ++ [Exchange.took f] := by
  cases hn : x.next with
  | mk a x' =>
    cases a with
    | frame f => exact .inr ⟨f, (next_log hn).1 f rfl⟩
    | failure e => exact .inl ((next_log hn).2 nofun)
    | nothing => exact .inl ((next_log hn).2 nofun)

end Relay
end MarketFeed
