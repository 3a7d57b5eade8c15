import MarketFeed.Proofs.Relay.Story

/-!
# MarketFeed.Proofs.Relay.Connections

A client has one connection at most.

* `Client.openAt` — the client has not closed a connection.
* `Owned`, `Told.owned` — every such connection is that of the session, or the one that a call logs
  on to.
* `Client.connectionCount`, `Told.connectionCount_le` — so there is one at most, open or being
  dialled.
-/

namespace MarketFeed
namespace Relay

/-! ## Open connections -/

/-- The client has not closed the connection. -/
def Connection.isOpen (x : Connection) : Bool := !x.clientClosed

def Client.openAt (c : Client) (n : Nat) : Bool :=
  (c.connections[n]?.map Connection.isOpen).getD false

/-- The connections that are open, and those that are being dialled. -/
def Client.connectionCount (c : Client) : Nat :=
  c.connections.countP Connection.isOpen + c.calls.countP fun k => k.stage.dials

section Open

variable {c c' : Client} {n m : Nat}

theorem openAt_congr (h : c'.connections = c.connections) (n : Nat) : c'.openAt n = c.openAt n := by
  rw [Client.openAt, Client.openAt, h]

theorem openAt_onConnection {f : Connection → Connection}
    (hf : ∀ x, c.connections[n]? = some x → (f x).clientClosed = x.clientClosed) (m : Nat) :
    (c.onConnection n f).openAt m = c.openAt m := by
  simp only [Client.openAt, Client.onConnection, List.getElem?_modify]
  by_cases hm : n = m
  · subst hm
    cases hx : c.connections[n]? with
    | none => rfl
    | some x => simp [Connection.isOpen, hf x hx]
  · simp [hm]

/-- A connection in the place of another that is open just when that was. -/
theorem openAt_replace {x x' : Connection} (hx : c.connections[n]? = some x)
    (hc : x'.clientClosed = x.clientClosed) (m : Nat) :
    (c.onConnection n fun _ => x').openAt m = c.openAt m := by
  refine openAt_onConnection (fun y hy => ?_) m
  rw [hx] at hy
  cases hy
  exact hc

theorem openAt_close (h : (c.onConnection n Connection.close).openAt m = true) :
    c.openAt m = true ∧ m ≠ n := by
  simp only [Client.openAt, Client.onConnection, List.getElem?_modify] at h ⊢
  by_cases hm : n = m
  · subst hm
    cases hx : c.connections[n]? with
    | none => simp [hx] at h
    | some x => simp [hx, Connection.close, Connection.isOpen] at h
  · simp only [hm, if_false, id_map'] at h
    exact ⟨h, Ne.symm hm⟩

theorem openAt_dropSession (h : c.dropSession.openAt m = true) :
    c.openAt m = true ∧ ∀ s, c.session = some s → s.connection ≠ m := by
  unfold Client.dropSession at h
  split at h
  · rename_i s hs
    obtain ⟨hopen, hne⟩ := openAt_close (c := c) (n := s.connection) h
    refine ⟨hopen, fun s' hs' => ?_⟩
    rw [hs] at hs'
    cases hs'
    exact hne.symm
  · rename_i hs
    refine ⟨h, fun s' hs' => ?_⟩
    rw [hs] at hs'
    cases hs'

theorem write_closed {x x' : Connection} {w : Wire.Message} (h : x.write w = .ok x') :
    x'.clientClosed = x.clientClosed := by
  unfold Connection.write at h
  split at h
  · split at h
    · cases h
    · cases h
      rfl
  · cases h
    rfl

theorem next_closed (x : Connection) : x.next.2.clientClosed = x.clientClosed := by
  unfold Connection.next
  split
  · rfl
  · rfl
  · split <;> rfl

theorem openAt_logOff (h : c.logOff.openAt m = true) :
    c.openAt m = true ∧ ∀ s, c.session = some s → s.connection ≠ m := by
  unfold Client.logOff at h
  split at h
  · rename_i hs
    refine ⟨h, fun s' hs' => ?_⟩
    rw [hs] at hs'
    cases hs'
  · rename_i s hs
    rcases c.write_cases s.connection (.logoff "client closing") with
      ⟨x, x', hx, hw, he⟩ | ⟨e, he, -⟩
    · simp only [he] at h
      obtain ⟨hopen, hne⟩ := openAt_dropSession h
      rw [openAt_replace hx (write_closed hw)] at hopen
      exact ⟨hopen, hne⟩
    · simp only [he] at h
      exact openAt_dropSession h

end Open

/-! ## To whom a connection belongs -/

/-- The connection is that of the session, or a call logs on to it. -/
def Belongs (c : Client) (n : Nat) : Prop :=
  (∃ s, c.session = some s ∧ s.connection = n) ∨ ∃ k ∈ c.calls, Client.ownConnection? k = some n

/-- No open connection is forgotten. -/
def Owned (c : Client) : Prop := ∀ n, c.openAt n = true → Belongs c n

section Owning

variable {config : RelayConfig} {inTurn : Bool} {story : List Entry} {c c' : Client} {now : Nat}
  {k : Call}

theorem mem_restage_of_ne {calls : List Call} {id : Nat} {st : Stage} {j : Call} (hj : j ∈ calls)
    (hne : j.id ≠ id) : j ∈ restage calls id st := mem_restage.2 (.inl ⟨hj, hne⟩)

theorem mem_restage_self {calls : List Call} (hk : k ∈ calls) (st : Stage) :
    { k with stage := st } ∈ restage calls k.id st := mem_restage.2 (.inr ⟨k, hk, rfl, rfl⟩)

/-- A step of a call loses no other call. -/
theorem others_of_goes (hg : Goes now k c c') {j : Call} (hj : j ∈ c.calls) (hne : j.id ≠ k.id) :
    j ∈ c'.calls := by
  have hall : ∀ st, j ∈ restage c.calls k.id st := fun st => mem_restage_of_ne hj hne
  cases hg with
  | findsLive =>
    rw [(connected_spec c k).1]
    exact hall _
  | findsNone =>
    obtain ⟨xs, hd⟩ := c.dropSession_spec
    rw [hd]
    exact hall _
  | refused =>
    rw [Client.failConnect, (failAttempt_spec _ k _).1]
    exact hall _
  | hearsBeat => exact hj
  | failsLogon =>
    rw [failLogon_calls]
    exact hall _
  | installs n =>
    obtain ⟨xs, hd⟩ := c.dropSession_spec
    rw [(connected_spec _ k).1, hd]
    exact hall _
  | failsSending =>
    rw [failSending_calls]
    exact hall _
  | restarts e task =>
    obtain ⟨xs, hd⟩ := c.dropSession_spec
    rw [hd]
    refine mem_restage_of_ne (List.mem_map.2 ⟨j, hj, ?_⟩) hne
    rw [if_neg hne]
  | closes =>
    obtain ⟨xs, hd⟩ := c.logOff_spec
    rw [hd]
    exact hall _
  | _ => exact hall _

/-- A step of a call that opens no connection, and after which what was open for the session or for
the call belongs to someone. -/
theorem Owned.step (h : Owned c) (hlk : Locked c) (hk : k ∈ c.calls)
    (hothers : ∀ j ∈ c.calls, j.id ≠ k.id → j ∈ c'.calls)
    (hopen : ∀ n, c'.openAt n = true → c.openAt n = true)
    (hsession : ∀ s, c.session = some s → c'.openAt s.connection = true →
      Belongs c' s.connection)
    (hown : ∀ n, Client.ownConnection? k = some n → c'.openAt n = true → Belongs c' n) :
    Owned c' := by
  intro n hn
  rcases h n (hopen n hn) with ⟨s, hs, rfl⟩ | ⟨j, hj, hjn⟩
  · exact hsession s hs hn
  · by_cases hid : j.id = k.id
    · rw [eq_of_id_eq hlk.nodup hj hk hid] at hjn
      exact hown n hjn hn
    · exact .inr ⟨j, hothers j hj hid, hjn⟩

/-- The same for a call without a connection of its own, when the session stays on its
connection. -/
theorem Owned.keeps (h : Owned c) (hlk : Locked c) (hk : k ∈ c.calls)
    (hothers : ∀ j ∈ c.calls, j.id ≠ k.id → j ∈ c'.calls)
    (hopen : ∀ n, c'.openAt n = true → c.openAt n = true)
    (hsession : ∀ s, c.session = some s → ∃ s', c'.session = some s' ∧
      s'.connection = s.connection)
    (hnone : Client.ownConnection? k = none) : Owned c' := by
  refine h.step hlk hk hothers hopen (fun s hs _ => .inl (hsession s hs)) fun n hn => ?_
  rw [hnone] at hn
  cases hn

/-- The same when the session is dropped. -/
theorem Owned.drops (h : Owned c) (hlk : Locked c) (hk : k ∈ c.calls)
    (hothers : ∀ j ∈ c.calls, j.id ≠ k.id → j ∈ c'.calls)
    (hopen : ∀ n, c'.openAt n = true → c.openAt n = true ∧
      ∀ s, c.session = some s → s.connection ≠ n)
    (hnone : Client.ownConnection? k = none) : Owned c' := by
  refine h.step hlk hk hothers (fun n hn => (hopen n hn).1) (fun s hs hn => ?_) fun n hn => ?_
  · exact absurd rfl ((hopen _ hn).2 s hs)
  · rw [hnone] at hn
    cases hn

theorem Owned.failsSending (h : Owned c) (hlk : Locked c) (hk : k ∈ c.calls) {s' : Option Session}
    {e : RelayError} (hothers : ∀ j ∈ c.calls, j.id ≠ k.id →
      j ∈ (Client.failSending { c with session := s' } k e).calls)
    (htrim : Trimmed c.session s') (hnone : Client.ownConnection? k = none) :
    Owned (Client.failSending { c with session := s' } k e) := by
  have hsame : ∀ s, c.session = some s → ∃ t, s' = some t ∧ t.connection = s.connection := by
    intro s hs
    rw [hs] at htrim
    cases hs' : s' with
    | none =>
      rw [hs'] at htrim
      exact htrim.elim
    | some t =>
      rw [hs'] at htrim
      exact ⟨t, rfl, htrim.1⟩
  by_cases hdrop : (e.isConnectionError || e.isProtocolViolation) = true
  · refine h.drops hlk hk hothers (fun n hn => ?_) hnone
    have hconns : (Client.failSending { c with session := s' } k e).connections =
        (Client.dropSession { c with session := s' }).connections := by
      rw [Client.failSending, if_pos hdrop]
      exact (failAttempt_spec _ k e).2.2.2
    rw [openAt_congr hconns] at hn
    obtain ⟨hopen, hne⟩ := openAt_dropSession hn
    refine ⟨hopen, fun s hs => ?_⟩
    obtain ⟨t, ht, hconn⟩ := hsame s hs
    exact hconn ▸ hne t ht
  · have hspec := failAttempt_spec (Client.leaveSession { c with session := s' } k.id) k e
    have hfail : Client.failSending { c with session := s' } k e =
        (Client.leaveSession { c with session := s' } k.id).failAttempt k e := by
      rw [Client.failSending, if_neg hdrop]
    refine h.keeps hlk hk hothers (fun n hn => ?_) (fun s hs => ?_) hnone
    · rw [hfail, openAt_congr hspec.2.2.2] at hn
      exact hn
    · rw [hfail, hspec.2.2.1]
      exact hsame s hs

/-- A call that dials logs on to the connection that it opens. -/
theorem Owned.dials (h : Owned c) (hlk : Locked c) (hk : k ∈ c.calls) (hs : k.stage = .dialling)
    (due : Nat) : Owned (Client.setStage
      { c with connections := c.connections ++
          [{ Connection.fresh with log := [.wrote (Client.logonRequest c.config)] }] }
      k.id (.loggingOn c.connections.length due)) := by
  intro n hn
  rcases Nat.lt_trichotomy n c.connections.length with hlt | rfl | hgt
  · have hold : c.openAt n = true := by
      simp only [Client.openAt, Client.setStage, List.getElem?_append_left hlt] at hn
      exact hn
    rcases h n hold with ⟨s, hc, hsn⟩ | ⟨j, hj, hjn⟩
    · exact .inl ⟨s, hc, hsn⟩
    · refine .inr ⟨j, mem_restage_of_ne hj fun hid => ?_, hjn⟩
      rw [eq_of_id_eq hlk.nodup hj hk hid, Client.ownConnection?, hs] at hjn
      cases hjn
  · exact .inr ⟨_, mem_restage_self hk _, rfl⟩
  · have hout : c.connections.length + 1 ≤ n := hgt
    simp only [Client.openAt, Client.setStage] at hn
    rw [List.getElem?_eq_none (by simpa using hout)] at hn
    cases hn

/-- A call that fails to log on closes its connection. -/
theorem Owned.failsLogon (h : Owned c) (hlk : Locked c) (hk : k ∈ c.calls) {n due : Nat}
    {x x' : Connection} {e : RelayError} (hs : k.stage = .loggingOn n due)
    (hx : c.connections[n]? = some x) (hn : x' = x ∨ x' = x.next.2)
    (hothers : ∀ j ∈ c.calls, j.id ≠ k.id →
      j ∈ ((c.onConnection n fun _ => x').failLogon k n e).calls) :
    Owned ((c.onConnection n fun _ => x').failLogon k n e) := by
  have hclosed : x'.clientClosed = x.clientClosed := by
    rcases hn with rfl | rfl
    · rfl
    · exact next_closed x
  have hsameAt := openAt_replace (c := c) hx hclosed
  obtain ⟨-, -, hsession, hconns⟩ := failAttempt_spec
    ({ (c.onConnection n fun _ => x').onConnection n Connection.close with
      connecting := false }.leaveDial k.id) k e
  have hopen : ∀ m, ((c.onConnection n fun _ => x').failLogon k n e).openAt m = true →
      c.openAt m = true ∧ m ≠ n := by
    intro m hm
    rw [Client.failLogon, Client.failConnect, openAt_congr hconns] at hm
    obtain ⟨hm, hne⟩ := openAt_close (c := c.onConnection n fun _ => x') hm
    exact ⟨(hsameAt m).symm.trans hm, hne⟩
  refine h.step hlk hk hothers (fun m hm => (hopen m hm).1)
    (fun s hc _ => .inl ⟨s, ?_, rfl⟩) fun m hm hm' => ?_
  · rw [Client.failLogon, Client.failConnect, hsession]
    exact hc
  · rw [Client.ownConnection?, hs] at hm
    cases hm
    exact absurd rfl (hopen _ hm').2

/-- The session that a call installs has the connection to which it has logged on. -/
theorem Owned.installs (h : Owned c) (hlk : Locked c) (hk : k ∈ c.calls) {n : Nat}
    (hs : k.stage = .beforeInstallation n)
    (hothers : ∀ j ∈ c.calls, j.id ≠ k.id →
      j ∈ (Client.connected { c.dropSession with session := some (.start n) } k).calls) :
    Owned (Client.connected { c.dropSession with session := some (.start n) } k) := by
  obtain ⟨-, -, hsession, hconns⟩ :=
    connected_spec { c.dropSession with session := some (.start n) } k
  have hopen : ∀ m,
      (Client.connected { c.dropSession with session := some (.start n) } k).openAt m = true →
        c.openAt m = true ∧ ∀ s, c.session = some s → s.connection ≠ m := by
    intro m hm
    rw [openAt_congr hconns] at hm
    exact openAt_dropSession hm
  refine h.step hlk hk hothers (fun m hm => (hopen m hm).1)
    (fun s hc hm => absurd rfl ((hopen _ hm).2 s hc)) fun m hm _ => ?_
  rw [Client.ownConnection?, hs] at hm
  cases hm
  exact .inl ⟨_, hsession, rfl⟩

theorem Owned.goes (h : Owned c) (hlk : Locked c) (hk : k ∈ c.calls) (hg : Goes now k c c') :
    Owned c' := by
  have hnone {st : Stage} (hs : k.stage = st)
      (hst : Client.ownConnection? { k with stage := st } = none) :
      Client.ownConnection? k = none := by
    subst hs
    exact hst
  have hsame : ∀ s, c.session = some s → ∃ s', c.session = some s' ∧
      s'.connection = s.connection := fun s hs => ⟨s, hs, rfl⟩
  have hothers : ∀ j ∈ c.calls, j.id ≠ k.id → j ∈ c'.calls := fun _ hj hne =>
    others_of_goes hg hj hne
  cases hg with
  | enters hs hl => exact h.keeps hlk hk hothers (fun _ hn => hn) hsame (hnone hs rfl)
  | findsLive s hs hl hc ha =>
    obtain ⟨-, -, hsession, hconns⟩ := connected_spec c k
    refine h.keeps hlk hk hothers (fun n hn => ?_) ?_ (hnone hs rfl)
    · rwa [openAt_congr hconns] at hn
    · rwa [hsession]
  | findsNone hs hl ha =>
    exact h.drops hlk hk hothers (fun n hn => openAt_dropSession hn) (hnone hs rfl)
  | refused hs hr =>
    obtain ⟨-, -, hsession, hconns⟩ :=
      failAttempt_spec ({ c with connecting := false }.leaveDial k.id) k (.io .refused)
    refine h.keeps hlk hk hothers (fun n hn => ?_) ?_ (hnone hs rfl)
    · rwa [Client.failConnect, openAt_congr hconns] at hn
    · rw [Client.failConnect, hsession]
      exact hsame
  | dials hs hr => exact h.dials hlk hk hs _
  | hearsBeat n due x x' f d hs hx hn hd =>
    have hclosed : x'.clientClosed = x.clientClosed := by rw [← next_closed x, hn]
    have hsameAt := openAt_replace (c := c) hx hclosed
    refine h.step hlk hk hothers (fun m hm => ?_) (fun s hc _ => ?_)
      fun m hm _ => ?_
    · rwa [hsameAt] at hm
    · exact .inl ⟨s, hc, rfl⟩
    · exact .inr ⟨k, hk, hm⟩
  | welcomed n due x x' f v text hs hx hn hd =>
    have hclosed : x'.clientClosed = x.clientClosed := by rw [← next_closed x, hn]
    have hsameAt := openAt_replace (c := c) hx hclosed
    refine h.step hlk hk hothers (fun m hm => ?_)
      (fun s hc _ => .inl ⟨s, hc, rfl⟩) fun m hm _ => ?_
    · exact (hsameAt m).symm.trans hm
    · rw [Client.ownConnection?, hs] at hm
      cases hm
      exact .inr ⟨_, mem_restage_self hk _, rfl⟩
  | failsLogon n due x x' e hs hx hn => exact h.failsLogon hlk hk hs hx hn hothers
  | installs n hs hl => exact h.installs hlk hk hs hothers
  | begins s batch again hs hl hc ha ht =>
    exact h.keeps hlk hk hothers (fun _ hn => hn) hsame (hnone hs rfl)
  | completes s hs hc =>
    exact h.keeps hlk hk hothers (fun _ hn => hn) hsame (hnone hs rfl)
  | trades s t rest id x x' hs hc hi hx hw =>
    refine h.keeps hlk hk hothers (fun n hn => ?_) hsame (hnone hs rfl)
    exact (openAt_replace hx (write_closed hw) n).symm.trans hn
  | asks s t rest x x' hs hc hi hq hx hw =>
    refine h.keeps hlk hk hothers (fun n hn => ?_) (fun s' hs' => ?_) (hnone hs rfl)
    · exact (openAt_replace (c := c) hx (write_closed hw) n).symm.trans hn
    · rw [hc] at hs'
      cases hs'
      exact ⟨_, rfl, rfl⟩
  | isConfirmed s t rest id due f q x x' hs hc hq hj hx hw =>
    refine h.keeps hlk hk hothers
      (fun n hn => ?_) (fun s' hs' => ?_) (hnone hs rfl)
    · exact (openAt_replace (c := c) hx (write_closed hw) n).symm.trans hn
    · rw [hc] at hs'
      cases hs'
      exact ⟨_, rfl, rfl⟩
  | isRejected s t rest id due f q reason hs hc hq hj =>
    refine h.keeps hlk hk hothers (fun _ hn => hn)
      (fun s' hs' => ?_) (hnone hs rfl)
    rw [hc] at hs'
    cases hs'
    exact ⟨_, rfl, rfl⟩
  | failsSending s' e hs hl hc he hf =>
    refine h.failsSending hlk hk hothers hc ?_
    rw [Client.ownConnection?]
    cases hst : k.stage <;> rw [hst] at hs <;> first | rfl | cases hs
  | retires e hs hl =>
    exact h.keeps hlk hk hothers (fun _ hn => hn) hsame (hnone hs rfl)
  | restarts e task hs hl ht =>
    exact h.drops hlk hk hothers (fun n hn => openAt_dropSession hn) (hnone hs rfl)
  | prepares hs hl =>
    exact h.keeps hlk hk hothers (fun _ hn => hn) hsame (hnone hs rfl)
  | closes hs hl =>
    exact h.drops hlk hk hothers (fun n hn => openAt_logOff hn) (hnone hs rfl)

/-- What happens besides closes no connection and opens none, and the session stays on its own. -/
theorem Owned.besides (h : Owned c) (hopen : ∀ n, c'.openAt n = true → c.openAt n = true)
    (hsession : ∀ s, c.session = some s → ∃ s', c'.session = some s' ∧
      s'.connection = s.connection)
    (hcalls : ∀ n, c'.openAt n = true → ∀ k ∈ c.calls, Client.ownConnection? k = some n →
      k ∈ c'.calls) : Owned c' := by
  intro n hn
  rcases h n (hopen n hn) with ⟨s, hs, rfl⟩ | ⟨k, hk, hkn⟩
  · exact .inl (hsession s hs)
  · exact .inr ⟨k, hcalls n hn k hk hkn, hkn⟩

theorem Owned.around (h : Owned c) (ha : Around c c') : Owned c' := by
  have hsame : ∀ s, c.session = some s → ∃ s', c.session = some s' ∧
      s'.connection = s.connection := fun s hs => ⟨s, hs, rfl⟩
  cases ha with
  | reads hr =>
    have hcalls := (calm_of_around (.reads hr)).2
    obtain ⟨s, x, x', hc, ha, hx, hcase⟩ := read_cases hr
    have hclosed : x'.clientClosed = x.clientClosed := by
      rcases hcase with ⟨f, hn, -⟩ | ⟨f, hn, -⟩ | ⟨e, hn, -⟩ <;> rw [← next_closed x, hn]
    have hkept : ∀ s', c.session = some s' → ∃ s'', c'.session = some s'' ∧
        s''.connection = s'.connection := by
      intro s' hs'
      rw [hc] at hs'
      cases hs'
      rcases hcase with ⟨f, -, -, rfl⟩ | ⟨f, -, -, rfl⟩ | ⟨e, -, rfl⟩
      · exact ⟨_, rfl, rfl⟩
      · exact ⟨_, rfl, enqueue_connection _ _⟩
      · exact ⟨_, rfl, enqueue_connection _ _⟩
    refine h.besides (fun n hn => ?_) hkept fun n _ k hk _ => by rwa [hcalls]
    rw [← openAt_replace (c := c) hx hclosed n]
    rcases hcase with ⟨f, -, -, rfl⟩ | ⟨f, -, -, rfl⟩ | ⟨e, -, rfl⟩ <;> exact hn
  | disturbs n x x' hx hl hc =>
    refine h.besides (fun m hm => ?_) hsame fun _ _ k hk _ => hk
    rwa [openAt_replace hx hc] at hm
  | listens b => exact h.besides (fun _ hn => hn) hsame fun _ _ k hk _ => hk

theorem Owned.calls (h : Owned c) (hlk : Locked c) (task : Task) : Owned (c.call task).2 := by
  have hadded : ∀ st, ∀ j ∈ c.calls,
      j ∈ restage (c.calls ++ [⟨c.nextCall, task, .beforeConnect⟩]) c.nextCall st := by
    intro st j hj
    rw [restage_concat hlk.fresh]
    exact List.mem_append_left _ hj
  have hsame : ∀ s, c.session = some s → ∃ s', c.session = some s' ∧
      s'.connection = s.connection := fun s hs => ⟨s, hs, rfl⟩
  have hall : ∀ st, ∀ c' : Client, c'.connections = c.connections → c'.session = c.session →
      c'.calls = restage (c.calls ++ [⟨c.nextCall, task, .beforeConnect⟩]) c.nextCall st →
      Owned c' := by
    intro st c' hconns hsession hcalls
    refine h.besides (fun n hn => by rwa [openAt_congr hconns] at hn) (by rwa [hsession])
      fun _ _ j hj _ => ?_
    rw [hcalls]
    exact hadded st j hj
  cases task with
  | connect => exact hall .beforeConnect _ rfl rfl rfl
  | close => exact hall .beforeClose _ rfl rfl rfl
  | publish batch again =>
    cases batch with
    | nil => exact hall (.finished (.ok ())) _ rfl rfl rfl
    | cons t batch => exact hall .beforeConnect _ rfl rfl rfl

theorem Owned.givesUp (h : Owned c) (hlk : Locked c)
    (hk : c.calls.find? (·.id = k.id) = some k) : Owned (c.abandon k.id) := by
  obtain ⟨-, hsession, -, hcalls⟩ := abandon_spec hk
  have hmem := List.mem_of_find?_eq_some hk
  have hopen : ∀ n, (c.abandon k.id).openAt n = true →
      c.openAt n = true ∧ Client.ownConnection? k ≠ some n := by
    intro n hn
    simp only [Client.abandon, hk] at hn
    cases hown : Client.ownConnection? k with
    | none =>
      simp only [hown] at hn
      refine ⟨?_, (Option.some_ne_none n).symm⟩
      cases hd : Client.isDialling k <;> simp only [hd] at hn <;> exact hn
    | some m =>
      simp only [hown] at hn
      have hclosed : (c.onConnection m Connection.close).openAt n = true := by
        cases hd : Client.isDialling k <;> simp only [hd] at hn <;> exact hn
      obtain ⟨hn, hne⟩ := openAt_close hclosed
      refine ⟨hn, fun heq => ?_⟩
      cases heq
      exact hne rfl
  refine h.besides (fun n hn => (hopen n hn).1) (fun s hs => ⟨s, hsession.trans hs, rfl⟩) ?_
  intro n hn j hj hjn
  rw [hcalls]
  refine List.mem_filter.2 ⟨hj, decide_eq_true fun hid => ?_⟩
  rw [eq_of_id_eq hlk.nodup hj hmem hid] at hjn
  exact (hopen n hn).2 hjn

theorem Told.owned (h : Told config inTurn story c) : Owned c := by
  induction h with
  | new => exact fun n hn => by cases hn
  | goes h now k hk hs ih =>
    exact ih.goes h.kept.1 (List.mem_of_find?_eq_some hk) (goes_of_step hs)
  | around h ha ih => exact ih.around ha
  | calls h task ht ih => exact ih.calls h.kept.1 task
  | @forgets story c h k r hk hs ih =>
    refine ih.besides (fun _ hn => hn) (fun s hs => ⟨s, hs, rfl⟩) fun n _ j hj hjn => ?_
    refine List.mem_filter.2 ⟨hj, decide_eq_true fun hid => ?_⟩
    rw [eq_of_id_eq h.kept.1.nodup hj hk hid, Client.ownConnection?, hs] at hjn
    cases hjn
  | givesUp h k hk hs ih => exact ih.givesUp h.kept.1 hk
  | reorders h hany hr ih =>
    cases hr <;> exact ih.besides (fun _ hn => hn) (fun s hs => ⟨s, hs, rfl⟩) fun _ _ j hj _ => hj

end Owning

/-! ## One at a time -/

/-- If no two places in a list hold what is looked for, it is there once at most. -/
theorem countP_le_one {α : Type} {p : α → Bool} {l : List α}
    (h : ∀ (i j : Nat) (a b : α), l[i]? = some a → l[j]? = some b → p a = true → p b = true →
      i = j) : l.countP p ≤ 1 := by
  induction l with
  | nil => exact Nat.zero_le 1
  | cons a l ih =>
    cases ha : p a with
    | false =>
      rw [List.countP_cons_of_neg (by simp [ha])]
      refine ih fun i j b b' hi hj hb hb' => ?_
      exact Nat.succ_inj.1 (h (i + 1) (j + 1) b b' hi hj hb hb')
    | true =>
      have hnone : l.countP p = 0 := by
        rw [List.countP_eq_zero]
        intro b hb hpb
        obtain ⟨j, hj⟩ := List.getElem?_of_mem hb
        cases h 0 (j + 1) a b rfl hj ha hpb
      have hone : (a :: l).countP p = l.countP p + 1 := List.countP_cons_of_pos ha
      omega

section Single

variable {config : RelayConfig} {inTurn : Bool} {story : List Entry} {c : Client}

theorem openAt_of_getElem? {n : Nat} {x : Connection} (hx : c.connections[n]? = some x)
    (ho : x.isOpen = true) : c.openAt n = true := by
  rw [Client.openAt, hx, Option.map_some, Option.getD_some, ho]

/-- A call with a connection of its own relies on the dialling lock, and there is no session. -/
theorem own_spec (hw : Wired config c) {k : Call} {n : Nat} (hk : k ∈ c.calls)
    (hn : Client.ownConnection? k = some n) : k.stage.ownsDial = true ∧ c.session = none := by
  have hfit := hw.fits k hk
  cases hst : k.stage with
  | loggingOn m due =>
    rw [hst] at hfit
    exact ⟨rfl, hfit.1⟩
  | beforeInstallation m =>
    rw [hst] at hfit
    exact ⟨rfl, hfit.1⟩
  | _ =>
    rw [Client.ownConnection?, hst] at hn
    cases hn

/-- A connection that belongs to the session or to a call is the only one. -/
theorem Belongs.unique (hlk : Locked c) (hw : Wired config c) {n m : Nat} (hn : Belongs c n)
    (hm : Belongs c m) : n = m := by
  rcases hn with ⟨s, hs, rfl⟩ | ⟨k, hk, hkn⟩ <;> rcases hm with ⟨s', hs', rfl⟩ | ⟨j, hj, hjm⟩
  · rw [hs] at hs'
    cases hs'
    rfl
  · rw [(own_spec hw hj hjm).2] at hs
    cases hs
  · rw [(own_spec hw hk hkn).2] at hs'
    cases hs'
  · have hkj := hlk.ownsDial_unique hk hj (own_spec hw hk hkn).1 (own_spec hw hj hjm).1
    rw [hkj, hjm] at hkn
    exact (Option.some.inj hkn).symm

/-- While a call dials no connection belongs to anyone. -/
theorem not_belongs_of_dials (hlk : Locked c) (hw : Wired config c) {k : Call} (hk : k ∈ c.calls)
    (hd : k.stage.dials = true) (n : Nat) : ¬ Belongs c n := by
  have hst : k.stage = .dialling := by
    cases hst : k.stage <;> rw [hst] at hd <;> first | rfl | cases hd
  have hfit := hw.fits k hk
  rw [hst] at hfit
  rintro (⟨s, hs, -⟩ | ⟨j, hj, hjn⟩)
  · rw [show c.session = none from hfit] at hs
    cases hs
  · have hkj := hlk.ownsDial_unique hk hj (by rw [hst]; rfl) (own_spec hw hj hjn).1
    rw [Client.ownConnection?, ← hkj, hst] at hjn
    cases hjn

/-- One connection at most is open or being dialled. -/
theorem Told.connectionCount_le (h : Told config inTurn story c) : c.connectionCount ≤ 1 := by
  obtain ⟨hlk, hw⟩ := h.kept
  have hopen : c.connections.countP Connection.isOpen ≤ 1 := by
    refine countP_le_one fun i j x y hi hj hx hy => ?_
    exact (h.owned i (openAt_of_getElem? hi hx)).unique hlk hw
      (h.owned j (openAt_of_getElem? hj hy))
  have hdial : c.calls.countP (fun k => k.stage.dials) ≤ 1 := by
    refine countP_le_one fun i j k k' hi hj hk hk' => ?_
    have howns : ∀ st : Stage, st.dials = true → st.ownsDial = true := by
      intro st hst
      cases st <;> first | rfl | cases hst
    have heq := hlk.ownsDial_unique (List.mem_of_getElem? hi) (List.mem_of_getElem? hj)
      (howns _ hk) (howns _ hk')
    subst heq
    have hids : ∀ l : Nat, c.calls[l]? = some k → (c.calls.map Call.id)[l]? = some k.id := by
      intro l hl
      rw [List.getElem?_map, hl]
      rfl
    obtain ⟨hlt, hat⟩ := List.getElem?_eq_some_iff.1 (hids i hi)
    exact (List.getElem?_inj hlt hlk.nodup).1 ((hids i hi).trans (hids j hj).symm)
  rw [Client.connectionCount]
  by_cases hnone : c.calls.countP (fun k => k.stage.dials) = 0
  · omega
  · -- who dials has no connection beside it
    obtain ⟨k, hk, hd⟩ := List.countP_pos_iff.1 (Nat.pos_of_ne_zero hnone)
    have hzero : c.connections.countP Connection.isOpen = 0 := by
      rw [List.countP_eq_zero]
      intro x hx ho
      obtain ⟨n, hn⟩ := List.getElem?_of_mem hx
      exact not_belongs_of_dials hlk hw hk hd n (h.owned n (openAt_of_getElem? hn ho))
    omega

end Single

end Relay
end MarketFeed
