import MarketFeed.Proofs.Relay.Akin

/-!
# MarketFeed.Proofs.Relay.Twins

Clients on whose connections akin streams have arrived.

* `Client.quiet` — all there is to see of a client but the heartbeats.
* `Twins` — two clients of which there is the same to see, connection by connection.
* `Twins.step`, `Twins.read` — they go on alike where neither takes a heartbeat, through every
  operation of the client.
* `Twins.unbeaten` — a client that takes a heartbeat stays the twin of one that waits.
-/

namespace MarketFeed
namespace Relay

open Wire (Frame)

/-- All there is to see of a client but what is on its way and the heartbeats that were taken. -/
def Client.quiet (c : Client) : Client :=
  { c with connections := c.connections.map Connection.quiet }

/-- That is its state, its session with the queue, the subscriptions and the next number, the results
of its calls, and all messages that it has written. -/
theorem Client.quiet_tells (c : Client) : c.quiet.state = c.state ∧ c.quiet.session = c.session ∧
    c.quiet.subscriptionCount = c.subscriptionCount ∧
    (∀ id, c.quiet.result? id = c.result? id) ∧
    c.quiet.connections.map Connection.messages = c.connections.map Connection.messages := by
  refine ⟨rfl, rfl, rfl, fun id => rfl, ?_⟩
  rw [quiet, List.map_map]
  exact List.map_congr_left fun x _ => x.messages_quiet

/-- The connections under one number. -/
inductive TwinAt (sent sent' : List UInt8) : Option Connection → Option Connection → Prop where
  | absent (h : sent = []) (h' : sent' = []) : TwinAt sent sent' none none
  | present {x y : Connection} (h : Twin sent sent' x y) : TwinAt sent sent' (some x) (some y)

theorem TwinAt.symm {sent sent' : List UInt8} {o o' : Option Connection}
    (h : TwinAt sent sent' o o') : TwinAt sent' sent o' o := by
  cases h with
  | absent h h' => exact .absent h' h
  | present h => exact .present h.symm

theorem TwinAt.eq_none {sent sent' : List UInt8} {o o' : Option Connection}
    (h : TwinAt sent sent' o o') (ho : o = none) : o' = none := by
  cases h with
  | absent => rfl
  | present => cases ho

theorem TwinAt.quiet {sent sent' : List UInt8} {o o' : Option Connection}
    (h : TwinAt sent sent' o o') : o.map Connection.quiet = o'.map Connection.quiet := by
  cases h with
  | absent => rfl
  | present h => exact congrArg some h.quiet

/-- Two clients on whose connections so much has arrived. -/
structure Twins (sent sent' : Nat → List UInt8) (c d : Client) : Prop where
  rest : ∀ xs, { c with connections := xs } = { d with connections := xs }
  each : ∀ n, TwinAt (sent n) (sent' n) c.connections[n]? d.connections[n]?

theorem receive_connection {s s' : Session} {a : Arrival} (h : s.receive a = some s') :
    s'.connection = s.connection := by
  cases a with
  | frame f =>
    simp only [Session.receive] at h
    split at h
    · cases h
      rfl
    · cases h
      exact enqueue_connection s _
  | failure e =>
    cases h
    exact enqueue_connection _ _
  | nothing => cases h

/-- Both stop with the same error, or go on as twins. -/
def TwinResults (sent sent' : Nat → List UInt8) (r r' : Except RelayError Client) : Prop :=
  (∃ e, r = .error e ∧ r' = .error e) ∨ ∃ c d, r = .ok c ∧ r' = .ok d ∧ Twins sent sent' c d

namespace Twins

variable {sent sent' : Nat → List UInt8} {c d : Client}

theorem fields (h : Twins sent sent' c d) : c.config = d.config ∧ c.session = d.session ∧
    c.dialLock = d.dialLock ∧ c.sessionLock = d.sessionLock ∧ c.connecting = d.connecting ∧
    c.listening = d.listening ∧ c.calls = d.calls ∧ c.nextCall = d.nextCall := by
  simpa using h.rest []

theorem config (h : Twins sent sent' c d) : c.config = d.config := h.fields.1

theorem session (h : Twins sent sent' c d) : c.session = d.session := h.fields.2.1

theorem dialLock (h : Twins sent sent' c d) : c.dialLock = d.dialLock := h.fields.2.2.1

theorem sessionLock (h : Twins sent sent' c d) : c.sessionLock = d.sessionLock := h.fields.2.2.2.1

theorem listening (h : Twins sent sent' c d) : c.listening = d.listening :=
  h.fields.2.2.2.2.2.1

theorem calls (h : Twins sent sent' c d) : c.calls = d.calls := h.fields.2.2.2.2.2.2.1

theorem symm (h : Twins sent sent' c d) : Twins sent' sent d c :=
  ⟨fun xs => (h.rest xs).symm, fun n => (h.each n).symm⟩

theorem new (config : RelayConfig) :
    Twins (fun _ => []) (fun _ => []) (.new config) (.new config) :=
  ⟨fun _ => rfl, fun _ => .absent rfl rfl⟩

theorem length (h : Twins sent sent' c d) : c.connections.length = d.connections.length := by
  have hle {sent sent' : Nat → List UInt8} {c d : Client} (h : Twins sent sent' c d) :
      c.connections.length ≤ d.connections.length := by
    have hat := h.each d.connections.length
    rw [List.getElem?_eq_none (Nat.le_refl _)] at hat
    exact List.getElem?_eq_none_iff.1 (hat.symm.eq_none rfl)
  exact Nat.le_antisymm (hle h) (hle h.symm)

/-- There is the same to see of both. -/
theorem quiet (h : Twins sent sent' c d) : c.quiet = d.quiet := by
  have hconns : c.connections.map Connection.quiet = d.connections.map Connection.quiet := by
    refine List.ext_getElem? fun n => ?_
    rw [List.getElem?_map, List.getElem?_map]
    exact (h.each n).quiet
  rw [Client.quiet, hconns]
  exact h.rest _

/-- An operation that has to do with no connection. -/
theorem apart (h : Twins sent sent' c d) (f : Client → Client)
    (hf : ∀ (c : Client) xs, f { c with connections := xs } = { f c with connections := xs }) :
    Twins sent sent' (f c) (f d) := by
  have hkeeps (c : Client) : (f c).connections = c.connections := by
    have hself := congrArg Client.connections (hf c c.connections)
    exact hself
  refine ⟨fun xs => ?_, fun n => ?_⟩
  · rw [← hf, ← hf, h.rest]
  · rw [hkeeps, hkeeps]
    exact h.each n

/-- An operation on one connection. -/
theorem onConnection (h : Twins sent sent' c d) (n : Nat) {f g : Connection → Connection}
    (hfg : ∀ x y, c.connections[n]? = some x → d.connections[n]? = some y →
      Twin (sent n) (sent' n) x y → Twin (sent n) (sent' n) (f x) (g y)) :
    Twins sent sent' (c.onConnection n f) (d.onConnection n g) := by
  refine ⟨h.rest, fun i => ?_⟩
  simp only [Client.onConnection, List.getElem?_modify]
  by_cases hi : n = i
  · subst hi
    have hat := h.each n
    generalize hx : c.connections[n]? = x at hat
    generalize hy : d.connections[n]? = y at hat
    cases hat with
    | absent hs hs' => exact .absent hs hs'
    | present ht =>
      simp only [if_true]
      exact .present (hfg _ _ hx hy ht)
  · have hid (o : Option Connection) (f : Connection → Connection) :
        ((fun x => if n = i then f x else x) <$> o) = o := by
      simp [hi]
    rw [hid, hid]
    exact h.each i

theorem write (h : Twins sent sent' c d) {n n' : Nat} (hn : n = n') {m m' : Wire.Message}
    (hm : m = m') : TwinResults sent sent' (c.write n m) (d.write n' m') := by
  subst hn hm
  have hat := h.each n
  generalize hx : c.connections[n]? = x at hat
  generalize hy : d.connections[n]? = y at hat
  cases hat with
  | absent =>
    simp only [Client.write, hx, hy]
    exact .inl ⟨_, rfl, rfl⟩
  | present ht =>
    simp only [Client.write, hx, hy]
    rcases ht.write m with ⟨e, hex, hey⟩ | ⟨x', y', hx', hy', ht'⟩
    · rw [hex, hey]
      exact .inl ⟨e, rfl, rfl⟩
    · rw [hx', hy']
      exact .inr ⟨_, _, rfl, rfl, h.onConnection n fun _ _ _ _ _ => ht'⟩

/-! ## Operations -/

theorem dropSession (h : Twins sent sent' c d) : Twins sent sent' c.dropSession d.dropSession := by
  unfold Client.dropSession
  rw [← h.session]
  split
  · next s hs =>
    exact (h.onConnection s.connection fun _ _ _ _ ht => ht.close).apart
      (fun c => { c with session := none }) fun _ _ => rfl
  · exact h

theorem failAttempt (h : Twins sent sent' c d) (k : Call) (e : RelayError) :
    Twins sent sent' (c.failAttempt k e) (d.failAttempt k e) := by
  refine h.apart (fun c => c.failAttempt k e) fun c xs => ?_
  obtain ⟨id, task, stage⟩ := k
  cases task with
  | publish batch again =>
    cases again with
    | true => rfl
    | false =>
      simp only [Client.failAttempt]
      split <;> rfl
  | connect => rfl
  | close => rfl

theorem failConnect (h : Twins sent sent' c d) (k : Call) (e : RelayError) :
    Twins sent sent' (c.failConnect k e) (d.failConnect k e) := by
  have hleft : Twins sent sent' ({ c with connecting := false }.leaveDial k.id)
      ({ d with connecting := false }.leaveDial k.id) :=
    h.apart (fun c => ({ c with connecting := false } : Client).leaveDial k.id) fun _ _ => rfl
  exact hleft.failAttempt k e

theorem failLogon (h : Twins sent sent' c d) (k : Call) (n : Nat) (e : RelayError) :
    Twins sent sent' (c.failLogon k n e) (d.failLogon k n e) :=
  (h.onConnection n fun _ _ _ _ ht => ht.close).failConnect k e

theorem failSending (h : Twins sent sent' c d) (k : Call) (e : RelayError) :
    Twins sent sent' (c.failSending k e) (d.failSending k e) := by
  unfold Client.failSending
  have hleaves {c d : Client} (h : Twins sent sent' c d) :
      Twins sent sent' ((c.leaveSession k.id).failAttempt k e)
        ((d.leaveSession k.id).failAttempt k e) :=
    (h.apart (fun c => c.leaveSession k.id) fun _ _ => rfl).failAttempt k e
  split
  · exact hleaves h.dropSession
  · exact hleaves h

theorem connected (h : Twins sent sent' c d) (k : Call) :
    Twins sent sent' (c.connected k) (d.connected k) := by
  refine h.apart (fun c => c.connected k) fun c xs => ?_
  obtain ⟨id, task, stage⟩ := k
  cases task <;> rfl

/-- A new connection. -/
theorem opened (h : Twins sent sent' c d) :
    Twins sent sent' { c with connections := c.connections ++ [Connection.fresh] }
      { d with connections := d.connections ++ [Connection.fresh] } := by
  refine ⟨h.rest, fun n => ?_⟩
  rcases Nat.lt_trichotomy n c.connections.length with hn | rfl | hn
  · simp only
    rw [List.getElem?_append_left hn, List.getElem?_append_left (h.length ▸ hn)]
    exact h.each n
  · have hat := h.each c.connections.length
    have hy : d.connections[c.connections.length]? = none := by
      rw [h.length, List.getElem?_eq_none (Nat.le_refl _)]
    rw [List.getElem?_eq_none (Nat.le_refl _), hy] at hat
    simp only
    rw [List.getElem?_concat_length, h.length, List.getElem?_concat_length]
    rw [h.length] at hat
    cases hat with
    | absent hs hs' =>
      rw [hs, hs']
      exact .present .fresh
  · have hat := h.each n
    simp only
    have hlong {x : Connection} {xs : List Connection} (hlt : xs.length < n) :
        (xs ++ [x])[n]? = xs[n]? := by
      rw [List.getElem?_eq_none (by rw [List.length_append]; exact hlt),
        List.getElem?_eq_none (Nat.le_of_lt hlt)]
    rw [hlong hn, hlong (h.length ▸ hn)]
    exact hat

theorem setStage (h : Twins sent sent' c d) (id : Nat) {st st' : Stage} (hst : st = st') :
    Twins sent sent' (c.setStage id st) (d.setStage id st') := by
  subst hst
  exact h.apart (fun c => c.setStage id st) fun _ _ => rfl

theorem deadline (h : Twins sent sent' c d) (now : Nat) : c.deadline now = d.deadline now := by
  rw [Client.deadline, Client.deadline, h.config]

theorem dial (h : Twins sent sent' c d) (k : Call) (now : Nat) :
    Twins sent sent' (c.dial k now) (d.dial k now) := by
  unfold Client.dial
  by_cases hl : c.listening = true
  · rw [if_pos hl, if_pos (h.listening.symm.trans hl)]
    rcases h.opened.write h.length (congrArg Client.logonRequest h.config) with
      ⟨e, he, he'⟩ | ⟨c', d', hc, hd, ht⟩
    · simp only [he, he']
      rw [h.length]
      exact h.opened.failLogon k _ e
    · simp only [hc, hd]
      exact ht.setStage k.id (by rw [h.length, ht.deadline])
  · rw [if_neg hl, if_neg (h.listening ▸ hl)]
    exact h.failConnect k _

/-- A message is written, and the call goes on or its sending fails. -/
theorem sends (h : Twins sent sent' c d) (k : Call) (n : Nat) (m : Wire.Message)
    {st st' : Client → Stage} (hst : ∀ c d, Twins sent sent' c d → st c = st' d) :
    Twins sent sent'
      (match c.write n m with
        | .ok c => c.setStage k.id (st c)
        | .error e => c.failSending k e)
      (match d.write n m with
        | .ok d => d.setStage k.id (st' d)
        | .error e => d.failSending k e) := by
  rcases h.write (Eq.refl n) (Eq.refl m) with ⟨e, he, he'⟩ | ⟨c', d', hc, hd, ht⟩
  · simp only [he, he']
    exact h.failSending k e
  · simp only [hc, hd]
    exact ht.setStage k.id (hst _ _ ht)

theorem setSession (h : Twins sent sent' c d) (o : Option Session) :
    Twins sent sent' { c with session := o } { d with session := o } :=
  h.apart (fun c => { c with session := o }) fun _ _ => rfl

theorem sendNext (h : Twins sent sent' c d) (k : Call) (s : Session) (rest : List Tick)
    (now : Nat) : Twins sent sent' (c.sendNext k s rest now) (d.sendNext k s rest now) := by
  cases rest with
  | nil => exact h.apart (fun c => (c.leaveSession k.id).finish k.id (.ok ())) fun _ _ => rfl
  | cons t rest =>
    simp only [Client.sendNext]
    cases s.idOf? ⟨t.symbol, t.exchange⟩ with
    | some id => exact h.sends k s.connection (trade id t) fun _ _ _ => rfl
    | none =>
      obtain ⟨o, s'⟩ := s.discardStale
      cases o with
      | some e => exact (h.setSession (some s')).failSending k e
      | none =>
        have hst (c d : Client) (ht : Twins sent sent' c d) :
            Stage.subscribing t rest s'.takeId.1 (c.deadline now) =
              .subscribing t rest s'.takeId.1 (d.deadline now) := by
          rw [ht.deadline]
        exact (h.setSession (some s'.takeId.2)).sends k _ _ hst

theorem subscribe? (h : Twins sent sent' c d) (k : Call) (s : Session) (t : Tick)
    (rest : List Tick) (id : UInt32) (due now : Nat) :
    Option.Rel (Twins sent sent') (c.subscribe? k s t rest id due now)
      (d.subscribe? k s t rest id due now) := by
  unfold Client.subscribe?
  split
  · split
    · exact .some (h.failSending k _)
    · exact .none
  · exact .some ((h.setSession _).failSending k _)
  · next s' _ =>
    have hs := h.setSession (some (s'.accept ⟨t.symbol, t.exchange⟩ id))
    rcases hs.write (Eq.refl (s'.accept ⟨t.symbol, t.exchange⟩ id).connection)
      (Eq.refl (trade id t)) with ⟨e, he, he'⟩ | ⟨c', d', hc, hd, ht⟩
    · simp only [he, he']
      exact .some (hs.failSending k e)
    · simp only [hc, hd]
      exact .some (ht.setStage k.id rfl)

theorem logOff (h : Twins sent sent' c d) : Twins sent sent' c.logOff d.logOff := by
  unfold Client.logOff
  rw [← h.session]
  split
  · exact h
  · next s _ =>
    rcases h.write (Eq.refl s.connection) (Eq.refl (Wire.Message.logoff "client closing")) with
      ⟨e, he, he'⟩ | ⟨c', d', hc, hd, ht⟩
    · simp only [he, he']
      exact h.dropSession
    · simp only [hc, hd]
      exact ht.dropSession

theorem judgeLogon (h : Twins sent sent' c d) (k : Call) (n : Nat) (f : Frame) :
    Twins sent sent' (c.judgeLogon k n f) (d.judgeLogon k n f) := by
  unfold Client.judgeLogon
  split
  · exact h.failLogon k n _
  · exact h
  · split
    · exact h.apart (fun c => (({ c with connecting := false } : Client).joinSession k.id).setStage
        k.id (.beforeInstallation n)) fun _ _ => rfl
    · exact h.failLogon k n _
  · exact h.failLogon k n _

/-- Where no heartbeat comes next on connection `n`, the same arrives, and is taken off both. -/
theorem next (h : Twins sent sent' c d) {n : Nat} {x y : Connection}
    (hx : c.connections[n]? = some x) (hy : d.connections[n]? = some y)
    (hbx : x.beating = false) (hby : y.beating = false) :
    x.next.1 = y.next.1 ∧ Twins sent sent' (c.onConnection n fun _ => x.next.2)
      (d.onConnection n fun _ => y.next.2) := by
  have hat := h.each n
  rw [hx, hy] at hat
  cases hat with
  | present ht =>
    obtain ⟨harrival, hnext⟩ := ht.next hbx hby
    exact ⟨harrival, h.onConnection n fun _ _ _ _ _ => hnext⟩

theorem logOn? (h : Twins sent sent' c d) (k : Call) (n due now : Nat)
    (hc : ∀ x, c.connections[n]? = some x → x.beating = false)
    (hd : ∀ y, d.connections[n]? = some y → y.beating = false) :
    Option.Rel (Twins sent sent') (c.logOn? k n due now) (d.logOn? k n due now) := by
  have hat := h.each n
  generalize hx : c.connections[n]? = x at hat
  generalize hy : d.connections[n]? = y at hat
  unfold Client.logOn?
  rw [hx, hy]
  cases hat with
  | absent => exact .none
  | present ht =>
    have hnext := h.next hx hy (hc _ hx) (hd _ hy)
    simp only
    generalize Connection.next _ = p at hnext ⊢
    generalize Connection.next _ = q at hnext ⊢
    obtain ⟨arrival, x'⟩ := p
    obtain ⟨arrival', y'⟩ := q
    obtain ⟨rfl, ht'⟩ := hnext
    cases arrival with
    | frame f => exact .some (ht'.judgeLogon k n f)
    | failure e => exact .some (ht'.failLogon k n e)
    | nothing =>
      simp only
      split
      · exact .some (h.failLogon k n _)
      · exact .none

/-- The reader goes on alike. -/
theorem read (h : Twins sent sent' c d)
    (hc : ∀ s x, c.session = some s → s.alive = true → c.connections[s.connection]? = some x →
      x.beating = false)
    (hd : ∀ s y, d.session = some s → s.alive = true → d.connections[s.connection]? = some y →
      y.beating = false) : Option.Rel (Twins sent sent') c.read d.read := by
  unfold Client.read
  cases hs : c.session with
  | none =>
    rw [h.session] at hs
    rw [hs]
    exact .none
  | some s =>
    have hs' : d.session = some s := h.session ▸ hs
    rw [hs']
    simp only
    split
    · next ha =>
      have hat := h.each s.connection
      generalize hx : c.connections[s.connection]? = x at hat
      generalize hy : d.connections[s.connection]? = y at hat
      cases hat with
      | absent => exact .none
      | present ht =>
        obtain ⟨harrival, hnext⟩ := h.next hx hy (hc s _ hs ha hx) (hd s _ hs' ha hy)
        simp only [harrival]
        cases hr : s.receive _ with
        | none => exact .none
        | some s' =>
          refine .some ?_
          simp only [receive_connection hr]
          exact hnext.setSession (some s')
    · exact .none

/-- A call goes on alike. -/
theorem step (h : Twins sent sent' c d) (k : Call) (now : Nat)
    (hc : ∀ n due x, k.stage = .loggingOn n due → c.connections[n]? = some x → x.beating = false)
    (hd : ∀ n due y, k.stage = .loggingOn n due → d.connections[n]? = some y → y.beating = false) :
    Option.Rel (Twins sent sent') (c.step now k) (d.step now k) := by
  unfold Client.step
  have hdial : c.dialLock.heldBy k.id = d.dialLock.heldBy k.id := by rw [h.dialLock]
  have hsession : c.sessionLock.heldBy k.id = d.sessionLock.heldBy k.id := by rw [h.sessionLock]
  cases hst : k.stage with
  | beforeConnect =>
    simp only [hdial]
    split
    · exact .some (h.apart
        (fun c => (c.joinSession k.id).setStage k.id .beforeInspection) fun _ _ => rfl)
    · exact .none
  | beforeInspection =>
    simp only [hsession, h.session]
    split
    · cases d.session with
      | none =>
        exact .some (h.apart (fun c => ({ (c.leaveSession k.id).setStage k.id .dialling with
          connecting := true } : Client)) fun _ _ => rfl)
      | some s =>
        simp only
        split
        · exact .some (h.connected k)
        · exact .some (h.dropSession.apart (fun c => ({ (c.leaveSession k.id).setStage k.id .dialling
            with connecting := true } : Client)) fun _ _ => rfl)
    · exact .none
  | dialling => exact .some (h.dial k now)
  | loggingOn n due =>
    exact h.logOn? k n due now (fun x hx => hc n due x hst hx) fun y hy => hd n due y hst hy
  | beforeInstallation n =>
    simp only [hsession]
    split
    · exact .some ((h.dropSession.setSession (some (.start n))).connected k)
    · exact .none
  | beforeSending =>
    simp only [hsession, h.session]
    split
    · split
      · split
        · exact .some (h.setStage k.id rfl)
        · exact .some (h.failSending k _)
      · exact .some (h.failSending k _)
    · exact .none
  | sending rest =>
    simp only [h.session]
    cases d.session with
    | none => exact .some (h.failSending k _)
    | some s => exact .some (h.sendNext k s rest now)
  | subscribing t rest id due =>
    simp only [h.session]
    cases d.session with
    | none => exact .some (h.failSending k _)
    | some s => exact h.subscribe? k s t rest id due now
  | beforeTeardown cause =>
    simp only [hdial]
    split
    · exact .some (h.apart
        (fun c => (c.joinSession k.id).setStage k.id (.tearingDown cause)) fun _ _ => rfl)
    · exact .none
  | tearingDown cause =>
    simp only [hsession]
    split
    · have hleft := h.dropSession.apart (fun c => (c.leaveSession k.id).leaveDial k.id)
        fun _ _ => rfl
      exact .some (hleft.apart (fun c => ((c.setTask k.id _).joinDial k.id).setStage k.id
        .beforeConnect) fun _ _ => rfl)
    · exact .none
  | beforeClose =>
    simp only [hdial]
    split
    · exact .some (h.apart (fun c => (c.joinSession k.id).setStage k.id .closing) fun _ _ => rfl)
    · exact .none
  | closing =>
    simp only [hsession]
    split
    · exact .some (h.logOff.apart (fun c => ((c.leaveSession k.id).leaveDial k.id).finish k.id
        (.ok ())) fun _ _ => rfl)
    · exact .none
  | finished r => exact .none

/-- What starts a call, forgets it or gives it up. -/
theorem call (h : Twins sent sent' c d) (task : Task) :
    Twins sent sent' (c.call task).2 (d.call task).2 := by
  refine h.apart (fun c => (c.call task).2) fun c xs => ?_
  cases task with
  | publish batch again => cases batch <;> rfl
  | connect => rfl
  | close => rfl

theorem abandon (h : Twins sent sent' c d) (id : Nat) :
    Twins sent sent' (c.abandon id) (d.abandon id) := by
  unfold Client.abandon
  rw [← h.calls]
  have hleaves {c d : Client} (h : Twins sent sent' c d) (k : Call) :
      Twins sent sent'
        ((((if Client.isDialling k then { c with connecting := false } else c).leaveDial
          id).leaveSession id).forget id)
        ((((if Client.isDialling k then { d with connecting := false } else d).leaveDial
          id).leaveSession id).forget id) := by
    have hleft {c d : Client} (h : Twins sent sent' c d) :
        Twins sent sent' (((c.leaveDial id).leaveSession id).forget id)
          (((d.leaveDial id).leaveSession id).forget id) :=
      h.apart (fun c => ((c.leaveDial id).leaveSession id).forget id) fun _ _ => rfl
    split
    · exact hleft (h.apart (fun c => ({ c with connecting := false } : Client)) fun _ _ => rfl)
    · exact hleft h
  split
  · exact h
  · next k _ =>
    cases Client.ownConnection? k with
    | some n => exact hleaves (h.onConnection n fun _ _ _ _ ht => ht.close) k
    | none => exact hleaves h k

end Twins

/-! ## Heartbeats -/

/-- A heartbeat comes next on connection `n`. -/
def Client.beatingAt (c : Client) (n : Nat) : Bool := c.connections[n]?.any Connection.beating

/-- What a task does next is to take a heartbeat. -/
def Client.hears (c : Client) : Client.Actor → Bool
  | .call id => (c.calls.find? (·.id = id)).any fun k =>
    match k.stage with
    | .loggingOn n _ => c.beatingAt n
    | _ => false
  | .reader => c.session.any fun s => s.alive && c.beatingAt s.connection

namespace Twins

variable {sent sent' : Nat → List UInt8} {c d : Client}

/-- A task goes on alike unless it takes a heartbeat. -/
theorem acts (h : Twins sent sent' c d) (a : Client.Actor) (now : Nat) (hc : c.hears a = false)
    (hd : d.hears a = false) :
    Option.Rel (Twins sent sent') (Client.system.step now a c) (Client.system.step now a d) := by
  cases a with
  | call id =>
    simp only [Client.system, ← h.calls]
    simp only [Client.hears, ← h.calls] at hc hd
    cases hk : c.calls.find? (·.id = id) with
    | none => exact .none
    | some k =>
      simp only [hk, Option.any_some] at hc hd
      refine h.step k now (fun n due x hst hx => ?_) fun n due y hst hy => ?_
      · simpa [hst, Client.beatingAt, hx] using hc
      · simpa [hst, Client.beatingAt, hy] using hd
  | reader =>
    refine h.read (fun s x hs ha hx => ?_) fun s y hs ha hy => ?_
    · simpa [Client.hears, hs, ha, Client.beatingAt, hx] using hc
    · simpa [Client.hears, hs, ha, Client.beatingAt, hy] using hd

/-- A heartbeat is taken on one side. -/
theorem unbeaten (h : Twins sent sent' c d) {n : Nat} {x : Connection} {f : Frame}
    {tail : List UInt8} (hx : c.connections[n]? = some x) (hin : x.incoming = f.bytes ++ tail)
    (hf : Beats f) : Twins sent sent'
      (c.onConnection n fun _ => { x with incoming := tail, log := x.log ++ [.took f] }) d := by
  have hat := h.each n
  generalize hy : d.connections[n]? = y at hat
  rw [hx] at hat
  cases hat with
  | present ht =>
    have hboth := h.onConnection n (g := fun _ => _) fun _ _ _ _ _ => ht.unbeaten hin hf
    rwa [Client.onConnection_self hy] at hboth

end Twins

theorem judgeLogon_of_beats (c : Client) (k : Call) (n : Nat) {f : Frame} (hf : Beats f) :
    c.judgeLogon k n f = c := by
  obtain ⟨d, hd⟩ := decode_heartbeat hf.1 hf.2.1
  unfold Client.judgeLogon
  rw [hd]

theorem next_of_beating {x : Connection} (h : x.beating = true) : ∃ f tail,
    x.incoming = f.bytes ++ tail ∧ Beats f ∧
      x.next = (.frame f, { x with incoming := tail, log := x.log ++ [.took f] }) := by
  unfold Connection.beating at h
  have hcases := Wire.next_cases x.incoming
  split at h
  · next f tail hn =>
    rw [hn] at hcases
    exact ⟨f, tail, hcases, of_decide_eq_true h, by rw [Connection.next, hn]⟩
  · cases h

/-- A task that takes a heartbeat does nothing else. -/
theorem step_of_hears {c : Client} {a : Client.Actor} (h : c.hears a = true) (now : Nat) :
    ∃ n x f tail, c.connections[n]? = some x ∧ x.incoming = f.bytes ++ tail ∧ Beats f ∧
      Client.system.step now a c = some
        (c.onConnection n fun _ => { x with incoming := tail, log := x.log ++ [.took f] }) := by
  have hat {n : Nat} (hb : c.beatingAt n = true) : ∃ x f tail, c.connections[n]? = some x ∧
      x.incoming = f.bytes ++ tail ∧ Beats f ∧
        x.next = (.frame f, { x with incoming := tail, log := x.log ++ [.took f] }) := by
    obtain ⟨x, hx, hb⟩ := (Option.any_eq_true _ _).1 hb
    obtain ⟨f, tail, hin, hf, hn⟩ := next_of_beating hb
    exact ⟨x, f, tail, hx, hin, hf, hn⟩
  cases a with
  | call id =>
    obtain ⟨k, hk, h⟩ := (Option.any_eq_true _ _).1 h
    split at h
    · next n due hst =>
      obtain ⟨x, f, tail, hx, hin, hf, hn⟩ := hat h
      refine ⟨n, x, f, tail, hx, hin, hf, ?_⟩
      simp only [Client.system, hk, Option.bind_some, Client.step, hst, Client.logOn?, hx, hn]
      rw [judgeLogon_of_beats _ _ _ hf]
    · cases h
  | reader =>
    obtain ⟨s, hs, h⟩ := (Option.any_eq_true _ _).1 h
    obtain ⟨ha, hb⟩ := Bool.and_eq_true_iff.1 h
    obtain ⟨x, f, tail, hx, hin, hf, hn⟩ := hat hb
    refine ⟨s.connection, x, f, tail, hx, hin, hf, ?_⟩
    have hreceive : s.receive (.frame f) = some s := if_pos hf.1
    simp only [Client.system, Client.read, hs, ha, if_true, hx, hn, hreceive, Option.map_some]
    simp only [Client.onConnection, ← hs]

/-- How many bytes have arrived and were not read. -/
def Client.unread (c : Client) : Nat := (c.connections.flatMap Connection.incoming).length

theorem unread_lt {xs : List Connection} {n : Nat} {x x' : Connection} (hx : xs[n]? = some x)
    (hlt : x'.incoming.length < x.incoming.length) :
    ((xs.modify n fun _ => x').flatMap Connection.incoming).length <
      (xs.flatMap Connection.incoming).length := by
  induction xs generalizing n with
  | nil => cases hx
  | cons y ys ih =>
    cases n with
    | zero =>
      cases hx
      simp only [List.modify_zero_cons, List.flatMap_cons, List.length_append]
      omega
    | succ n =>
      have hrest := ih hx
      simp only [List.modify_succ_cons, List.flatMap_cons, List.length_append]
      omega

theorem unread_of_beat {c : Client} {n : Nat} {x : Connection} {f : Frame} {tail : List UInt8}
    (hx : c.connections[n]? = some x) (hin : x.incoming = f.bytes ++ tail) :
    (c.onConnection n fun _ => { x with incoming := tail, log := x.log ++ [.took f] }).unread <
      c.unread := by
  refine unread_lt hx ?_
  have hlen : f.bytes.length = Wire.headerWidth + f.payload.length := Wire.length_bytes f
  simp only [hin, List.length_append, hlen, Wire.headerWidth]
  omega

end Relay
end MarketFeed
