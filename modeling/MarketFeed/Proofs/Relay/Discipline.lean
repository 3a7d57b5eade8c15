import MarketFeed.Proofs.Relay.Locks
import MarketFeed.Proofs.Relay.Network
import MarketFeed.Proofs.Relay.Session

/-!
# MarketFeed.Proofs.Relay.Discipline

Every connection of every client that can come about keeps the rules of the protocol, whatever its
peers do and in whatever order its calls go on.

* `Wired` — the invariant of a client, with what the stage of each call promises.
* `Reachable.connections_disciplined` — the logs of all connections are disciplined.
-/

namespace MarketFeed
namespace Relay

/-! ## The invariant -/

def Stage.isSubscribing : Stage → Bool
  | .subscribing .. => true
  | _ => false

/-- The stage promises nothing about the session and the connections. -/
def Stage.isPlain : Stage → Bool
  | .dialling | .loggingOn .. | .beforeInstallation _ | .subscribing .. => false
  | _ => true

/-- What the stage of a call promises. -/
def Fits (config : RelayConfig) (c : Client) : Stage → Prop
  | .dialling => c.session = none
  | .loggingOn n _ => c.session = none ∧
    ∃ log, c.logs[n]? = some log ∧ messages log = [Client.logonRequest config]
  | .beforeInstallation n => c.session = none ∧
    ∃ log, c.logs[n]? = some log ∧ messages log = [Client.logonRequest config] ∧ Welcomed log
  | .subscribing t _ id _ => ∀ s log, c.session = some s → c.logs[s.connection]? = some log →
    Waiting (Known s) s log ⟨t.symbol, t.exchange⟩ id
  | _ => True

structure Wired (config : RelayConfig) (c : Client) : Prop where
  same : c.config = config
  orderly : ∀ log ∈ c.logs, Orderly config log
  inStep : ∀ s, c.session = some s → ∃ log, c.logs[s.connection]? = some log ∧ InStep s log
  settled : ∀ s log, c.session = some s → c.logs[s.connection]? = some log →
    Settled (Known s) log ∨ ∃ k ∈ c.calls, k.stage.isSubscribing = true
  fits : ∀ k ∈ c.calls, Fits config c k.stage

theorem fits_of_plain {config : RelayConfig} {c : Client} {st : Stage} (h : st.isPlain = true) :
    Fits config c st := by
  cases st <;> trivial

theorem fits_congr {config : RelayConfig} {c c' : Client} {st : Stage} (h : Fits config c st)
    (hs : c'.session = c.session) (hl : c'.logs = c.logs) : Fits config c' st := by
  cases st <;> simp only [Fits, hs, hl] <;> exact h

namespace Wired

variable {config : RelayConfig} {now : Nat} {k : Call} {c c' : Client}

/-- A step that spares the session and the logs, and brings no call to a stage with promises. -/
theorem spared (h : Wired config c) (hc : c'.config = c.config) (hs : c'.session = c.session)
    (hl : c'.logs = c.logs) (hsound : ∀ j ∈ c'.calls, j.stage.isPlain = true ∨ j ∈ c.calls)
    (hkept : ∀ j ∈ c.calls, j.stage.isSubscribing = true → j ∈ c'.calls) : Wired config c' where
  same := hc.trans h.same
  orderly := by rw [hl]; exact h.orderly
  inStep := by rw [hs, hl]; exact h.inStep
  settled := by
    rw [hs, hl]
    intro s log hs hlog
    rcases h.settled s log hs hlog with hset | ⟨j, hj, hsub⟩
    · exact .inl hset
    · exact .inr ⟨j, hkept j hj hsub, hsub⟩
  fits j hj := by
    rcases hsound j hj with hplain | hj
    · exact fits_of_plain hplain
    · exact fits_congr (h.fits j hj) hs hl

/-- The same for a step that moves one call. -/
theorem sparedBy (h : Wired config c) (hlk : Locked c) (hk : k ∈ c.calls)
    (hns : k.stage.isSubscribing = false) (st : Stage) (hst : st.isPlain = true)
    (hc : c'.config = c.config) (hs : c'.session = c.session) (hl : c'.logs = c.logs)
    (hcalls : c'.calls = restage c.calls k.id st) : Wired config c' := by
  refine h.spared hc hs hl ?_ ?_
  · rw [hcalls]
    intro j hj
    rcases mem_restage.1 hj with ⟨hj, -⟩ | ⟨i, -, -, rfl⟩
    · exact .inr hj
    · exact .inl hst
  · rw [hcalls]
    intro j hj hsub
    refine mem_restage.2 (.inl ⟨hj, ?_⟩)
    intro hid
    have heq := eq_of_id_eq hlk.nodup hj hk hid
    rw [heq, hns] at hsub
    cases hsub

/-- A step after which there is no session. Logs may change where the call owns the dialling
lock: no other call waits for a logon then. -/
theorem withoutSession (h : Wired config c) (hlk : Locked c) (hk : k ∈ c.calls) (st : Stage)
    (hc : c'.config = c.config) (hs : c'.session = none)
    (horderly : ∀ log ∈ c'.logs, Orderly config log) (hfit : Fits config c' st)
    (hcalls : ∀ j ∈ c'.calls, j.stage = st ∨ ∃ i ∈ c.calls, i.stage = j.stage ∧ i.id ≠ k.id)
    (hlogs : c'.logs = c.logs ∨ k.stage.ownsDial = true) : Wired config c' where
  same := hc.trans h.same
  orderly := horderly
  inStep s hs' := by rw [hs] at hs'; cases hs'
  settled s log hs' := by rw [hs] at hs'; cases hs'
  fits j hj := by
    rcases hcalls j hj with hst | ⟨i, hi, hst, hid⟩
    · rw [hst]
      exact hfit
    · rw [← hst]
      have hold := h.fits i hi
      have hfree : i.stage.ownsDial = true → c'.logs = c.logs := by
        intro hoi
        rcases hlogs with hlogs | hok
        · exact hlogs
        · exact absurd (congrArg Call.id (hlk.ownsDial_unique hi hk hoi hok)) hid
      cases hsi : i.stage with
      | dialling => exact hs
      | loggingOn n due =>
        rw [hsi] at hold hfree
        exact ⟨hs, by rw [hfree rfl]; exact hold.2⟩
      | beforeInstallation n =>
        rw [hsi] at hold hfree
        exact ⟨hs, by rw [hfree rfl]; exact hold.2⟩
      | subscribing t rest id due => intro s log hs'; rw [hs] at hs'; cases hs'
      | _ => trivial

/-- A step of the call that holds the session, which it keeps. -/
theorem onSession (h : Wired config c) (hlk : Locked c) (hk : k ∈ c.calls)
    (ho : k.stage.ownsSession = true) {s s' : Session} (log' : List Exchange) {st : Stage}
    (hs : c.session = some s) (hc : c'.config = c.config) (hs' : c'.session = some s')
    (hn : s'.connection = s.connection) (hl : c'.logs = c.logs.set s.connection log')
    (hcalls : c'.calls = restage c.calls k.id st) (horderly : Orderly config log')
    (hin : InStep s' log')
    (hst : (Settled (Known s') log' ∧ st.isPlain = true) ∨
      (st.isSubscribing = true ∧ ∀ c : Client, c.session = some s' →
        c.logs[s'.connection]? = some log' → Fits config c st)) : Wired config c' := by
  obtain ⟨log, hlog, -⟩ := h.inStep s hs
  have hlog' : c'.logs[s'.connection]? = some log' := by
    rw [hl, hn, List.getElem?_set_self (List.getElem?_eq_some_iff.1 hlog).1]
  refine ⟨hc.trans h.same, ?_, ?_, ?_, ?_⟩
  · intro x hx
    rw [hl] at hx
    rcases List.mem_or_eq_of_mem_set hx with hx | rfl
    · exact h.orderly x hx
    · exact horderly
  · intro t ht
    rw [hs'] at ht
    cases ht
    exact ⟨log', hlog', hin⟩
  · intro t x ht hx
    rw [hs'] at ht
    cases ht
    rw [hlog'] at hx
    cases hx
    rcases hst with ⟨hset, -⟩ | ⟨hsub, -⟩
    · exact .inl hset
    · refine .inr ⟨{ k with stage := st }, ?_, hsub⟩
      rw [hcalls]
      exact mem_restage.2 (.inr ⟨k, hk, rfl, rfl⟩)
  · intro j hj
    rw [hcalls] at hj
    rcases mem_restage.1 hj with ⟨hj, hid⟩ | ⟨i, -, -, rfl⟩
    · -- the others neither dial, since there is a session, nor hold it
      have hold := h.fits j hj
      cases hsj : j.stage with
      | dialling => rw [hsj] at hold; exact absurd (hs.symm.trans hold) nofun
      | loggingOn n due => rw [hsj] at hold; exact absurd (hs.symm.trans hold.1) nofun
      | beforeInstallation n => rw [hsj] at hold; exact absurd (hs.symm.trans hold.1) nofun
      | subscribing t rest id due =>
        have heq := hlk.eq_of_ownsSession hj hk (by rw [hsj]; rfl) (hlk.session.head k hk ho)
        exact absurd (congrArg Call.id heq) hid
      | _ => trivial
    · rcases hst with ⟨-, hplain⟩ | ⟨-, hfit⟩
      · exact fits_of_plain hplain
      · exact hfit c' hs' hlog'

/-- While the call that holds the session does not wait for an answer, nothing is open. -/
theorem settledFor (h : Wired config c) (hlk : Locked c) (hk : k ∈ c.calls)
    (ho : k.stage.ownsSession = true) (hns : k.stage.isSubscribing = false) {s : Session}
    {log : List Exchange} (hs : c.session = some s) (hlog : c.logs[s.connection]? = some log) :
    Settled (Known s) log := by
  rcases h.settled s log hs hlog with hset | ⟨j, hj, hsub⟩
  · exact hset
  · have hoj : j.stage.ownsSession = true := by
      cases hst : j.stage <;> rw [hst] at hsub <;> first | rfl | cases hsub
    have heq := hlk.eq_of_ownsSession hj hk hoj (hlk.session.head k hk ho)
    rw [heq, hns] at hsub
    cases hsub

end Wired

/-! ## The steps keep it -/

section Steps

variable {config : RelayConfig} {now : Nat} {k : Call} {c c' : Client}

theorem isPlain_failure (k : Call) (e : RelayError) : (k.failure e).isPlain = true := by
  unfold Call.failure
  split <;> rfl

theorem isPlain_readiness (k : Call) : k.readiness.isPlain = true := by
  unfold Call.readiness
  split <;> rfl

theorem failAttempt_spec (c : Client) (k : Call) (e : RelayError) :
    (c.failAttempt k e).calls = restage c.calls k.id (k.failure e) ∧
      (c.failAttempt k e).config = c.config ∧ (c.failAttempt k e).session = c.session ∧
      (c.failAttempt k e).connections = c.connections := by
  rw [Client.failAttempt_eq, Call.failure]
  split
  · exact ⟨rfl, rfl, rfl, rfl⟩
  · exact ⟨rfl, rfl, rfl, rfl⟩

theorem connected_spec (c : Client) (k : Call) :
    (c.connected k).calls = restage c.calls k.id k.readiness ∧
      (c.connected k).config = c.config ∧ (c.connected k).session = c.session ∧
      (c.connected k).connections = c.connections := by
  obtain ⟨id, task, stage⟩ := k
  cases task <;> exact ⟨rfl, rfl, rfl, rfl⟩

theorem logs_congr {c c' : Client} (h : c'.connections = c.connections) : c'.logs = c.logs := by
  rw [Client.logs, Client.logs, h]

theorem failLogon_calls (c : Client) (k : Call) (n : Nat) (e : RelayError) :
    (c.failLogon k n e).calls = restage c.calls k.id (k.failure e) :=
  (failAttempt_spec _ k e).1

theorem failLogon_logs (c : Client) (k : Call) (n : Nat) (e : RelayError) :
    (c.failLogon k n e).logs = c.logs := by
  obtain ⟨-, -, -, hconns⟩ := failAttempt_spec
    ({ c.onConnection n Connection.close with connecting := false }.leaveDial k.id) k e
  exact (logs_congr hconns).trans (Client.onConnection_logs_of_log fun _ _ => rfl)

theorem failSending_calls (c : Client) (k : Call) (e : RelayError) :
    (c.failSending k e).calls = restage c.calls k.id (k.failure e) := by
  unfold Client.failSending
  refine (failAttempt_spec _ k e).1.trans ?_
  obtain ⟨xs, hd⟩ := c.dropSession_spec
  split
  · rw [hd]
    rfl
  · rfl

theorem failSending_logs (c : Client) (k : Call) (e : RelayError) :
    (c.failSending k e).logs = c.logs := by
  unfold Client.failSending
  obtain ⟨-, -, -, hconns⟩ := failAttempt_spec
    ((if e.isConnectionError || e.isProtocolViolation then c.dropSession else c).leaveSession k.id)
    k e
  refine (logs_congr hconns).trans ?_
  split
  · exact c.dropSession_logs
  · rfl

theorem logOff_logs (c : Client) : c.logOff.logs = c.logs ∨
    ∃ s log, c.session = some s ∧ c.logs[s.connection]? = some log ∧
      c.logOff.logs =
        c.logs.set s.connection (log ++ [Exchange.wrote (.logoff "client closing")]) := by
  unfold Client.logOff
  split
  · exact .inl rfl
  · rename_i s hs
    rcases c.write_cases s.connection (.logoff "client closing") with
      ⟨x, x', hx, hw, he⟩ | ⟨e, he, -⟩
    · refine .inr ⟨s, x.log, hs, ?_, ?_⟩
      · rw [Client.logs_getElem?, hx]
        rfl
      · simp only [he]
        rw [Client.dropSession_logs, Client.onConnection_logs, write_log hw]
    · simp only [he]
      rw [Client.dropSession_logs]
      exact .inl rfl

theorem stage_of_restage {calls : List Call} {id : Nat} {st : Stage} {j : Call}
    (h : j ∈ restage calls id st) : j.stage = st ∨ ∃ i ∈ calls, i.stage = j.stage ∧ i.id ≠ id := by
  rcases mem_restage.1 h with ⟨hj, hid⟩ | ⟨i, -, -, rfl⟩
  · exact .inr ⟨j, hj, rfl, hid⟩
  · exact .inl rfl

theorem orderly_set {logs : List (List Exchange)} {n : Nat} {log : List Exchange}
    (h : ∀ x ∈ logs, Orderly config x) (hlog : Orderly config log) :
    ∀ x ∈ logs.set n log, Orderly config x := by
  intro x hx
  rcases List.mem_or_eq_of_mem_set hx with hx | rfl
  · exact h x hx
  · exact hlog

theorem log_mem {n : Nat} {x : Connection} (hx : c.connections[n]? = some x) :
    c.logs[n]? = some x.log := by
  rw [Client.logs_getElem?, hx]
  rfl

theorem Wired.orderlyAt (h : Wired config c) {n : Nat} {x : Connection}
    (hx : c.connections[n]? = some x) : Orderly config x.log :=
  h.orderly x.log (List.mem_of_getElem? (log_mem hx))

theorem orderly_next {x : Connection} (h : Orderly config x.log) :
    Orderly config x.next.2.log := by
  rcases log_next x with hn | ⟨f, hn⟩
  · rw [hn]
    exact h
  · rw [hn]
    exact .took h f

theorem idOf?_none {s : Session} {l : Listing} (h : s.idOf? l = none) (id : UInt32) :
    (l, id) ∉ s.subscriptions := by
  intro hm
  simp only [Session.idOf?, Option.map_eq_none_iff, List.find?_eq_none] at h
  exact h (l, id) hm (by simp)

theorem idOf?_some {s : Session} {l : Listing} {id : UInt32} (h : s.idOf? l = some id) :
    (l, id) ∈ s.subscriptions := by
  simp only [Session.idOf?, Option.map_eq_some_iff] at h
  obtain ⟨⟨l', id'⟩, hf, rfl⟩ := h
  have hl : l' = l := by simpa using List.find?_some hf
  subst hl
  exact List.mem_of_find?_eq_some hf

/-- On a connection with nothing but the logon no request is open. -/
theorem settled_of_logon {P : Listing → UInt32 → Wire.Frame → Prop} {log : List Exchange}
    (hm : messages log = [Client.logonRequest config]) : Settled P log := by
  have hsubs := subscriptions_of_logon hm
  constructor
  · intro l id ha
    have hin := ha.mem_subscriptions
    rw [hsubs] at hin
    cases hin
  · intro l id f hf
    have hin := hf.mem_subscriptions
    rw [hsubs] at hin
    cases hin

/-- A session on a connection that has just been welcomed. -/
theorem inStep_start {n : Nat} {log : List Exchange}
    (hm : messages log = [Client.logonRequest config]) (hw : Welcomed log) :
    InStep (.start n) log := by
  refine ⟨⟨by rw [hm]; nofun, hw, ?_⟩, by rw [subscriptions_of_logon hm]; rfl, nofun, nofun⟩
  intro reason hr
  have hin : .logoff reason ∈ messages log := List.mem_filterMap.2 ⟨_, hr, rfl⟩
  rw [hm, List.mem_singleton] at hin
  cases hin

/-- The session's log, and how it agrees with the session. -/
theorem Wired.logOf (h : Wired config c) {s : Session} {x : Connection} (hs : c.session = some s)
    (hx : c.connections[s.connection]? = some x) : InStep s x.log := by
  obtain ⟨log, hlog, hin⟩ := h.inStep s hs
  rw [log_mem hx] at hlog
  cases hlog
  exact hin

theorem Wired.dials (h : Wired config c) (hlk : Locked c) (hk : k ∈ c.calls) (due : Nat)
    (hs : k.stage = .dialling) : Wired config (Client.setStage
      { c with connections := c.connections ++
          [{ Connection.fresh with log := [.wrote (Client.logonRequest c.config)] }] }
      k.id (.loggingOn c.connections.length due)) := by
  have hnone : c.session = none := by
    have hfit := h.fits k hk
    rwa [hs] at hfit
  have hlogs : (Client.setStage
      { c with connections := c.connections ++
          [{ Connection.fresh with log := [.wrote (Client.logonRequest c.config)] }] }
      k.id (.loggingOn c.connections.length due)).logs =
      c.logs ++ [[Exchange.wrote (Client.logonRequest config)]] := by
    rw [← h.same]
    exact List.map_append
  refine h.withoutSession hlk hk (.loggingOn c.connections.length due) rfl hnone ?_ ?_
    (fun j hj => stage_of_restage hj) (.inr (by rw [hs]; rfl))
  · rw [hlogs]
    intro log hlog
    rcases List.mem_append.1 hlog with hlog | hlog
    · exact h.orderly log hlog
    · rw [List.mem_singleton] at hlog
      rw [hlog]
      exact .wrote .nil ⟨rfl, rfl⟩
  · refine ⟨hnone, [.wrote (Client.logonRequest config)], ?_, rfl⟩
    rw [hlogs, ← c.length_logs]
    exact List.getElem?_concat_length

/-- A frame is taken while the logon is answered. -/
theorem Wired.takesLogon (h : Wired config c) (hlk : Locked c) (hk : k ∈ c.calls) {n due : Nat}
    {x : Connection} (hs : k.stage = .loggingOn n due) (hx : c.connections[n]? = some x)
    {x' : Connection} (hn : x' = x ∨ x' = x.next.2) (st : Stage) (hc : c'.config = c.config)
    (hs' : c'.session = c.session) (hl : c'.logs = c.logs.set n x'.log)
    (hcalls : ∀ j ∈ c'.calls, j.stage = st ∨ ∃ i ∈ c.calls, i.stage = j.stage ∧ i.id ≠ k.id)
    (hfit : c.session = none → messages x.log = [Client.logonRequest config] →
      c'.logs[n]? = some x'.log → Fits config c' st) : Wired config c' := by
  have hold := h.fits k hk
  rw [hs] at hold
  obtain ⟨hnone, log, hlog, hm⟩ := hold
  rw [log_mem hx] at hlog
  cases hlog
  have horderly : Orderly config x'.log := by
    rcases hn with rfl | rfl
    · exact h.orderlyAt hx
    · exact orderly_next (h.orderlyAt hx)
  refine h.withoutSession hlk hk st hc (hs'.trans hnone) ?_ ?_ hcalls
    (.inr (by rw [hs]; rfl))
  · rw [hl]
    exact orderly_set h.orderly horderly
  · refine hfit hnone hm ?_
    rw [hl, List.getElem?_set_self (List.getElem?_eq_some_iff.1 (log_mem hx)).1]

theorem Wired.installs (h : Wired config c) (hlk : Locked c) (hk : k ∈ c.calls) {n : Nat}
    (hs : k.stage = .beforeInstallation n) (hl : c.sessionLock.heldBy k.id = true) :
    Wired config (Client.connected { c.dropSession with session := some (.start n) } k) := by
  have hold := h.fits k hk
  rw [hs] at hold
  obtain ⟨hnone, log, hlog, hm, hw⟩ := hold
  have hin : InStep (.start n) log := inStep_start hm hw
  rw [Client.dropSession_of_none hnone]
  obtain ⟨hcalls, hconfig, hsession, hconns⟩ :=
    connected_spec { c with session := some (.start n) } k
  have hlogs : _ = c.logs := logs_congr hconns
  refine ⟨hconfig.trans h.same, ?_, ?_, ?_, ?_⟩
  · rw [hlogs]
    exact h.orderly
  · rw [hsession, hlogs]
    intro s hs'
    cases hs'
    exact ⟨log, hlog, hin⟩
  · rw [hsession, hlogs]
    intro s log' hs' hlog'
    cases hs'
    rw [show log' = log from Option.some.inj (hlog'.symm.trans hlog)]
    exact .inl (settled_of_logon hm)
  · intro j hj
    rw [hcalls] at hj
    rcases mem_restage.1 hj with ⟨hj, hid⟩ | ⟨i, -, -, rfl⟩
    · -- no other call dials, and none holds the session
      have hother : j.stage.ownsDial = true → False := by
        intro hoj
        exact hid (congrArg Call.id (hlk.ownsDial_unique hj hk hoj (by rw [hs]; rfl)))
      cases hsj : j.stage with
      | dialling => exact (hother (by rw [hsj]; rfl)).elim
      | loggingOn n due => exact (hother (by rw [hsj]; rfl)).elim
      | beforeInstallation n => exact (hother (by rw [hsj]; rfl)).elim
      | subscribing t rest id due =>
        exact absurd (congrArg Call.id (hlk.eq_of_ownsSession hj hk (by rw [hsj]; rfl) hl)) hid
      | _ => trivial
    · exact fits_of_plain (isPlain_readiness k)

theorem trade_ne_subscribe (id : UInt32) (t : Tick) : (trade id t).kind ≠ .subscribe := nofun

theorem trade_ne_logoff (id : UInt32) (t : Tick) : (trade id t).kind ≠ .logoff := nofun

theorem Wired.trades (h : Wired config c) (hlk : Locked c) (hk : k ∈ c.calls) {s : Session}
    {t : Tick} {rest : List Tick} {id : UInt32} {x x' : Connection}
    (hs : k.stage = .sending (t :: rest)) (hc : c.session = some s)
    (hi : s.idOf? ⟨t.symbol, t.exchange⟩ = some id) (hx : c.connections[s.connection]? = some x)
    (hw : x.write (trade id t) = .ok x') : Wired config
      ((c.onConnection s.connection fun _ => x').setStage k.id (.sending rest)) := by
  have hin := h.logOf hc hx
  have hset := h.settledFor hlk hk (by rw [hs]; rfl) (by rw [hs]; rfl) hc (log_mem hx)
  have hmay : MayWrite config x.log (trade id t) := ⟨hin.inUse, hin.known _ _ (idOf?_some hi)⟩
  refine h.onSession hlk hk (by rw [hs]; rfl) (x.log ++ [Exchange.wrote (trade id t)]) hc rfl hc rfl
    ?_ rfl (.wrote (h.orderlyAt hx) hmay) ?_ (.inl ⟨hset.wrote (trade_ne_subscribe id t), rfl⟩)
  · rw [← write_log hw]
    exact c.onConnection_logs s.connection x'
  · refine ⟨hin.inUse.wrote (trade_ne_logoff id t), ?_, ?_, hin.inbound⟩
    · rw [subscriptions_wrote (trade_ne_subscribe id t)]
      exact hin.nextId
    · intro l i hm
      exact answered_wrote.2 (hin.known l i hm)

theorem Wired.asks (h : Wired config c) (hlk : Locked c) (hk : k ∈ c.calls) {s : Session}
    {t : Tick} {rest : List Tick} {x x' : Connection} (due : Nat)
    (hs : k.stage = .sending (t :: rest)) (hc : c.session = some s)
    (hi : s.idOf? ⟨t.symbol, t.exchange⟩ = none) (hx : c.connections[s.connection]? = some x)
    (hw : x.write (.subscribe s.nextId t.symbol t.exchange) = .ok x') : Wired config
      ((Client.onConnection
        { c with session := some { s with inbound := [], nextId := s.nextId + 1 } }
        s.connection fun _ => x').setStage k.id (.subscribing t rest s.nextId due)) := by
  have hin := h.logOf hc hx
  have hset := h.settledFor hlk hk (by rw [hs]; rfl) (by rw [hs]; rfl) hc (log_mem hx)
  have hmay : MayWrite config x.log (.subscribe s.nextId t.symbol t.exchange) := by
    refine ⟨hin.inUse, hin.nextId, ?_⟩
    rintro i ⟨f, hf, hconf⟩
    exact idOf?_none hi i (hset.all _ _ f hf hconf)
  refine h.onSession hlk hk (by rw [hs]; rfl)
    (x.log ++ [Exchange.wrote (.subscribe s.nextId t.symbol t.exchange)]) hc rfl rfl rfl
    ?_ rfl (.wrote (h.orderlyAt hx) hmay) ?_ (.inr ⟨rfl, ?_⟩)
  · rw [← write_log hw]
    exact c.onConnection_logs s.connection x'
  · refine ⟨hin.inUse.wrote (by nofun), ?_, ?_, nofun⟩
    · rw [subscriptions_subscribe, List.length_append, List.length_singleton]
      change s.nextId + 1 = _
      rw [hin.nextId, UInt32.ofNat_add (_ + 1) 1]
      rfl
    · intro l i hm
      exact answered_wrote.2 (hin.known l i hm)
  · intro d hd hlog s' log' hs' hlog'
    rw [hd] at hs'
    cases hs'
    rw [hlog] at hlog'
    cases hlog'
    refine .opened (asking_wrote.2 rfl) ?_ (.inl rfl)
    intro l i f hf
    exact hset.all l i f (replied_wrote.1 hf)

/-- What a call waits for while its subscription is open. -/
theorem Wired.waits (h : Wired config c) (hk : k ∈ c.calls) {s : Session} {t : Tick}
    {rest : List Tick} {id : UInt32} {due : Nat} {log : List Exchange}
    (hs : k.stage = .subscribing t rest id due) (hc : c.session = some s)
    (hlog : c.logs[s.connection]? = some log) :
    Waiting (Known s) s log ⟨t.symbol, t.exchange⟩ id := by
  have hwait := h.fits k hk
  rw [hs] at hwait
  exact hwait s log hc hlog

theorem Wired.isConfirmed (h : Wired config c) (hlk : Locked c) (hk : k ∈ c.calls) {s : Session}
    {t : Tick} {rest : List Tick} {id : UInt32} {due : Nat} {f : Wire.Frame}
    {q : List (Except RelayError Wire.Frame)} {x x' : Connection}
    (hs : k.stage = .subscribing t rest id due) (hc : c.session = some s)
    (hq : s.inbound = .ok f :: q) (hj : Session.judge id ⟨t.symbol, t.exchange⟩ f = .ok ())
    (hx : c.connections[s.connection]? = some x) (hw : x.write (trade id t) = .ok x') :
    Wired config ((Client.onConnection
      { c with session := some ({ s with inbound := q }.accept ⟨t.symbol, t.exchange⟩ id) }
      s.connection fun _ => x').setStage k.id (.sending rest)) := by
  have hin := h.logOf hc hx
  obtain ⟨hclosed, hreply, hall⟩ := (h.waits hk hs hc (log_mem hx)).arrival hq
  have hans : Answered x.log ⟨t.symbol, t.exchange⟩ id := ⟨f, hreply, judge_ok_iff.1 hj⟩
  have hset : Settled (Known ({ s with inbound := q }.accept ⟨t.symbol, t.exchange⟩ id)) x.log := by
    refine ⟨hclosed, ?_⟩
    intro l i g hg hconf
    rcases hall l i g hg with hm | ⟨rfl, rfl, -⟩
    · exact List.mem_append_left _ (hm hconf)
    · exact List.mem_append_right _ (List.mem_singleton.2 rfl)
  have hmay : MayWrite config x.log (trade id t) := ⟨hin.inUse, hans⟩
  refine h.onSession hlk hk (by rw [hs]; rfl) (x.log ++ [Exchange.wrote (trade id t)]) hc rfl rfl
    rfl ?_ rfl (.wrote (h.orderlyAt hx) hmay) ?_ (.inl ⟨hset.wrote (trade_ne_subscribe id t), rfl⟩)
  · rw [← write_log hw]
    exact c.onConnection_logs s.connection x'
  · refine ⟨hin.inUse.wrote (trade_ne_logoff id t), ?_, ?_, ?_⟩
    · rw [subscriptions_wrote (trade_ne_subscribe id t)]
      exact hin.nextId
    · intro l i hm
      rw [answered_wrote]
      rcases List.mem_append.1 hm with hm | hm
      · exact hin.known l i hm
      · rw [List.mem_singleton] at hm
        cases hm
        exact hans
    · intro e he
      exact hin.inbound e (by rw [hq]; exact .tail _ he)

theorem Wired.isRejected (h : Wired config c) (hlk : Locked c) (hk : k ∈ c.calls) {s : Session}
    {t : Tick} {rest : List Tick} {id : UInt32} {due : Nat} {f : Wire.Frame}
    {q : List (Except RelayError Wire.Frame)} {e : RelayError}
    (hs : k.stage = .subscribing t rest id due) (hc : c.session = some s)
    (hq : s.inbound = .ok f :: q) (hj : Session.judge id ⟨t.symbol, t.exchange⟩ f = .error e) :
    Wired config ((Client.leaveSession { c with session := some { s with inbound := q } }
      k.id).finish k.id (.error e)) := by
  obtain ⟨log, hlog, hin⟩ := h.inStep s hc
  obtain ⟨hclosed, -, hall⟩ := (h.waits hk hs hc hlog).arrival hq
  have hset : Settled (Known s) log := by
    refine ⟨hclosed, ?_⟩
    intro l i g hg hconf
    rcases hall l i g hg with hm | ⟨-, rfl, rfl⟩
    · exact hm hconf
    · rw [judge_ok_iff.2 hconf] at hj
      cases hj
  have hsame : c.logs = c.logs.set s.connection log := by
    obtain ⟨hlt, rfl⟩ := List.getElem?_eq_some_iff.1 hlog
    rw [List.set_getElem_self]
  exact h.onSession hlk hk (by rw [hs]; rfl) log hc rfl rfl rfl hsame rfl
    (h.orderly log (List.mem_of_getElem? hlog))
    ⟨hin.inUse, hin.nextId, hin.known, fun e he => hin.inbound e (by rw [hq]; exact .tail _ he)⟩
    (.inl ⟨hset, rfl⟩)

/-- Whatever else fails while a batch is sent costs the session. -/
theorem Wired.drops (h : Wired config c) {s' : Option Session} {e : RelayError}
    (hc : Trimmed c.session s')
    (he : e.isConnectionError = true ∨ e.isProtocolViolation = true ∨
      ∃ s, c.session = some s ∧ .error e ∈ s.inbound) :
    Client.failSending { c with session := s' } k e =
      (c.dropSession.leaveSession k.id).failAttempt k e := by
  have hcond : (e.isConnectionError || e.isProtocolViolation) = true := by
    rcases he with he | he | ⟨s, hs, he⟩
    · rw [he, Bool.true_or]
    · rw [he, Bool.or_true]
    · obtain ⟨log, -, hin⟩ := h.inStep s hs
      rw [(hin.inbound e he).2, Bool.true_or]
  have hdrop : Client.dropSession { c with session := s' } = c.dropSession := by
    cases hs : c.session with
    | none =>
      rw [hs] at hc
      cases s' with
      | none => rw [← hs]
      | some s' => cases hc
    | some s =>
      rw [hs] at hc
      cases s' with
      | none => cases hc
      | some s' => exact Client.dropSession_congr hs hc.1
  unfold Client.failSending
  rw [if_pos hcond, hdrop]

theorem Wired.goes (h : Wired config c) (hlk : Locked c) (hk : k ∈ c.calls)
    (hg : Goes now k c c') : Wired config c' := by
  cases hg with
  | enters hs =>
    exact h.sparedBy hlk hk (by rw [hs]; rfl) .beforeInspection rfl rfl rfl rfl rfl
  | findsLive s hs =>
    obtain ⟨hcalls, hconfig, hsession, hconns⟩ := connected_spec c k
    exact h.sparedBy hlk hk (by rw [hs]; rfl) _ (isPlain_readiness k) hconfig hsession
      (logs_congr hconns) hcalls
  | findsNone hs =>
    obtain ⟨xs, hd⟩ := c.dropSession_spec
    refine h.withoutSession hlk hk .dialling (by rw [hd]; rfl) c.dropSession_session
      (c.dropSession_logs.symm ▸ h.orderly) c.dropSession_session ?_ (.inl c.dropSession_logs)
    intro j hj
    rw [hd] at hj
    exact stage_of_restage hj
  | refused hs =>
    obtain ⟨hcalls, hconfig, hsession, hconns⟩ :=
      failAttempt_spec ({ c with connecting := false }.leaveDial k.id) k (.io .refused)
    exact h.sparedBy hlk hk (by rw [hs]; rfl) _ (isPlain_failure k _) hconfig hsession
      (logs_congr hconns) hcalls
  | dials hs => exact h.dials hlk hk _ hs
  | hearsBeat n due x x' f d hs hx hn hd =>
    have hnext : x' = x.next.2 := by rw [hn]
    refine h.takesLogon hlk hk hs hx (.inr hnext) (.loggingOn n due) rfl rfl
      (c.onConnection_logs n x') ?_ ?_
    · intro j hj
      by_cases hid : j.id = k.id
      · exact .inl (by rw [eq_of_id_eq hlk.nodup hj hk hid, hs])
      · exact .inr ⟨j, hj, rfl, hid⟩
    · intro hnone hm hlog
      refine ⟨hnone, x'.log, hlog, ?_⟩
      rw [(next_log hn).1 f rfl, messages_took]
      exact hm
  | welcomed n due x x' f v text hs hx hn hd =>
    have hnext : x' = x.next.2 := by rw [hn]
    refine h.takesLogon hlk hk hs hx (.inr hnext) (.beforeInstallation n) rfl rfl
      (c.onConnection_logs n x') (fun j hj => stage_of_restage hj) ?_
    intro hnone hm hlog
    refine ⟨hnone, x'.log, hlog, ?_⟩
    rw [(next_log hn).1 f rfl, messages_took]
    exact ⟨hm, f, by simp, v, text, hd⟩
  | failsLogon n due x x' e hs hx hn hf =>
    obtain ⟨hcalls, hconfig, hsession, hconns⟩ := failAttempt_spec
      ({ (c.onConnection n fun _ => x').onConnection n Connection.close with
        connecting := false }.leaveDial k.id) k e
    refine h.takesLogon hlk hk hs hx hn (k.failure e) hconfig hsession
      ((logs_congr hconns).trans ?_) ?_ (fun _ _ _ => fits_of_plain (isPlain_failure k e))
    · rw [← c.onConnection_logs n x']
      exact Client.onConnection_logs_of_log (fun _ _ => rfl)
    · intro j hj
      exact stage_of_restage (hcalls ▸ hj)
  | installs n hs hl => exact h.installs hlk hk hs hl
  | begins s batch again hs =>
    exact h.sparedBy hlk hk (by rw [hs]; rfl) (.sending batch) rfl rfl rfl rfl rfl
  | completes s hs =>
    exact h.sparedBy hlk hk (by rw [hs]; rfl) (.finished (.ok ())) rfl rfl rfl rfl rfl
  | trades s t rest id x x' hs hc hi hx hw => exact h.trades hlk hk hs hc hi hx hw
  | asks s t rest x x' hs hc hi hq hx hw => exact h.asks hlk hk _ hs hc hi hx hw
  | isConfirmed s t rest id due f q x x' hs hc hq hj hx hw =>
    exact h.isConfirmed hlk hk hs hc hq hj hx hw
  | isRejected s t rest id due f q reason hs hc hq hj => exact h.isRejected hlk hk hs hc hq hj
  | failsSending s' e hs hl hc he hf =>
    rw [h.drops hc he]
    obtain ⟨hcalls, hconfig, hsession, hconns⟩ :=
      failAttempt_spec (c.dropSession.leaveSession k.id) k e
    obtain ⟨xs, hd⟩ := c.dropSession_spec
    have hlogs := (logs_congr hconns).trans c.dropSession_logs
    refine h.withoutSession hlk hk (k.failure e) (hconfig.trans (by rw [hd]; rfl))
      (hsession.trans c.dropSession_session) ?_ (fits_of_plain (isPlain_failure k e)) ?_
      (.inl hlogs)
    · rw [hlogs]
      exact h.orderly
    · intro j hj
      rw [hcalls, hd] at hj
      exact stage_of_restage hj
  | retires e hs =>
    exact h.sparedBy hlk hk (by rw [hs]; rfl) (.tearingDown e) rfl rfl rfl rfl rfl
  | restarts e task hs =>
    obtain ⟨xs, hd⟩ := c.dropSession_spec
    refine h.withoutSession hlk hk .beforeConnect (by rw [hd]; rfl) c.dropSession_session
      (c.dropSession_logs.symm ▸ h.orderly) trivial ?_ (.inl c.dropSession_logs)
    intro j hj
    rw [hd] at hj
    rcases stage_of_restage hj with hst | ⟨i, hi, hst, hid⟩
    · exact .inl hst
    · obtain ⟨i', hi', rfl⟩ := List.mem_map.1 hi
      refine .inr ⟨i', hi', ?_⟩
      by_cases hik : i'.id = k.id <;> simp_all
  | prepares hs =>
    exact h.sparedBy hlk hk (by rw [hs]; rfl) .closing rfl rfl rfl rfl rfl
  | closes hs =>
    obtain ⟨xs, hd⟩ := c.logOff_spec
    refine h.withoutSession hlk hk (.finished (.ok ())) (by rw [hd]; rfl) (by rw [hd]; rfl)
      ?_ trivial ?_ (.inr (by rw [hs]; rfl))
    · rcases logOff_logs c with hlogs | ⟨s, log, hs', hlog, hlogs⟩
      · exact hlogs.symm ▸ h.orderly
      · obtain ⟨log', hlog', hin⟩ := h.inStep s hs'
        rw [hlog] at hlog'
        cases hlog'
        change ∀ x ∈ c.logOff.logs, Orderly config x
        rw [hlogs]
        exact orderly_set h.orderly (.wrote (h.orderly log (List.mem_of_getElem? hlog)) hin.inUse)
    · intro j hj
      rw [hd] at hj
      exact stage_of_restage hj

theorem Wired.reads (h : Wired config c) (hr : c.read = some c') : Wired config c' := by
  obtain ⟨s, s', log, log', hs, ha, hlog, hrec, hs', hl, hc, hcalls⟩ := receives_of_read hr
  have hlog' : c'.logs[s'.connection]? = some log' := by
    rw [hl, hrec.connection, List.getElem?_set_self (List.getElem?_eq_some_iff.1 hlog).1]
  refine ⟨hc.trans h.same, ?_, ?_, ?_, ?_⟩
  · rw [hl]
    exact orderly_set h.orderly ((h.orderly log (List.mem_of_getElem? hlog)).receives hrec)
  · intro t ht
    rw [hs'] at ht
    cases ht
    obtain ⟨x, hx, hin⟩ := h.inStep s hs
    rw [hlog] at hx
    cases hx
    exact ⟨log', hlog', hin.receives hrec⟩
  · intro t x ht hx
    rw [hs'] at ht
    cases ht
    rw [hlog'] at hx
    cases hx
    rw [hcalls]
    rcases h.settled s log hs hlog with hset | hsub
    · rw [hrec.known]
      exact .inl (hset.receives hrec)
    · exact .inr hsub
  · rw [hcalls]
    intro j hj
    have hold := h.fits j hj
    cases hsj : j.stage with
    | dialling => rw [hsj] at hold; exact absurd (hs.symm.trans hold) nofun
    | loggingOn n due => rw [hsj] at hold; exact absurd (hs.symm.trans hold.1) nofun
    | beforeInstallation n => rw [hsj] at hold; exact absurd (hs.symm.trans hold.1) nofun
    | subscribing t rest id due =>
      intro u x hu hx
      rw [hs'] at hu
      cases hu
      rw [hlog'] at hx
      cases hx
      rw [hsj] at hold
      rw [hrec.known]
      exact (hold s log hs hlog).receives ha hrec
    | _ => trivial

theorem Wired.calls (h : Wired config c) (hlk : Locked c) (task : Task) :
    Wired config (c.call task).2 := by
  have hbegun : ∀ st : Stage, st.isPlain = true → ∀ lock : Lock, Wired config { c with
      dialLock := lock, nextCall := c.nextCall + 1
      calls := restage (c.calls ++ [⟨c.nextCall, task, .beforeConnect⟩]) c.nextCall st } := by
    intro st hst lock
    rw [restage_concat hlk.fresh]
    refine h.spared rfl rfl rfl ?_ (fun j hj _ => List.mem_append_left _ hj)
    intro j hj
    rcases List.mem_append.1 hj with hj | hj
    · exact .inr hj
    · rw [List.mem_singleton] at hj
      rw [hj]
      exact .inl hst
  cases task with
  | connect => exact hbegun .beforeConnect rfl _
  | close => exact hbegun .beforeClose rfl _
  | publish batch again =>
    cases batch with
    | nil => exact hbegun (.finished (.ok ())) rfl _
    | cons t batch => exact hbegun .beforeConnect rfl _

/-- A call that does not wait for an answer can be forgotten. -/
theorem Wired.removes (h : Wired config c) (hlk : Locked c) (hk : k ∈ c.calls)
    (hns : k.stage.isSubscribing = false) (hc : c'.config = c.config)
    (hs : c'.session = c.session) (hl : c'.logs = c.logs)
    (hcalls : c'.calls = c.calls.filter (·.id ≠ k.id)) : Wired config c' := by
  refine h.spared hc hs hl ?_ ?_
  · rw [hcalls]
    exact fun j hj => .inr (List.mem_filter.1 hj).1
  · rw [hcalls]
    intro j hj hsub
    refine List.mem_filter.2 ⟨hj, ?_⟩
    rw [decide_eq_true_eq]
    intro hid
    rw [eq_of_id_eq hlk.nodup hj hk hid, hns] at hsub
    cases hsub

theorem abandon_spec (hk : c.calls.find? (·.id = k.id) = some k) :
    (c.abandon k.id).config = c.config ∧ (c.abandon k.id).session = c.session ∧
      (c.abandon k.id).logs = c.logs ∧
      (c.abandon k.id).calls = c.calls.filter (·.id ≠ k.id) := by
  have hlogs : ∀ n, (c.onConnection n Connection.close).logs = c.logs :=
    fun n => Client.onConnection_logs_of_log fun _ _ => rfl
  simp only [Client.abandon, hk]
  cases hown : Client.ownConnection? k with
  | none => cases hdial : Client.isDialling k <;> exact ⟨rfl, rfl, rfl, rfl⟩
  | some n => cases hdial : Client.isDialling k <;> exact ⟨rfl, rfl, hlogs n, rfl⟩

theorem Wired.move (h : Wired config c) (hlk : Locked c) (hm : Move c c') : Wired config c' := by
  cases hm with
  | goes now k hk hstep => exact h.goes hlk (List.mem_of_find?_eq_some hk) (goes_of_step hstep)
  | around ha =>
    cases ha with
    | reads hr => exact h.reads hr
    | disturbs n x x' hx hl hc =>
      refine h.spared rfl rfl (Client.onConnection_logs_of_log ?_) (fun j hj => .inr hj)
        (fun j hj _ => hj)
      intro y hy
      rw [hx] at hy
      cases hy
      exact hl
    | listens b => exact h.spared rfl rfl rfl (fun j hj => .inr hj) (fun j hj _ => hj)
  | calls task ht => exact h.calls hlk task
  | forgets k r hk hs => exact h.removes hlk hk (by rw [hs]; rfl) rfl rfl rfl rfl
  | givesUp k hk hs =>
    obtain ⟨hconfig, hsession, hlogs, hcalls⟩ := abandon_spec hk
    have hns : k.stage.isSubscribing = false := by
      cases hst : k.stage <;> rw [hst] at hs <;> first | rfl | cases hs
    exact h.removes hlk (List.mem_of_find?_eq_some hk) hns hconfig hsession hlogs hcalls

theorem Wired.new (config : RelayConfig) : Wired config (.new config) where
  same := rfl
  orderly log hlog := by cases hlog
  inStep s hs := by cases hs
  settled s log hs := by cases hs
  fits k hk := by cases hk

end Steps

theorem Reachable.wired {config : RelayConfig} {c : Client} (h : Reachable config c) :
    Wired config c := by
  -- a move needs the locks too: no other call writes on the session meanwhile
  induction h with
  | new => exact .new config
  | move hr hm ih => exact ih.move hr.locked hm

/-- Whatever is called, in whatever order the calls go on, and whatever the peers do: each
connection keeps the rules. -/
theorem Reachable.connections_disciplined {config : RelayConfig} {c : Client}
    (h : Reachable config c) : ∀ x ∈ c.connections, Disciplined config x.log := by
  intro x hx
  exact (h.wired.orderly x.log (List.mem_map_of_mem hx)).disciplined

/-- A client that has sent a batch of two listings to a peer that accepts everything. -/
theorem disciplined_two_listings :
    let tick : String → Tick := fun symbol => ⟨"CME", symbol, "t", .epoch, .zero, .zero, none, []⟩
    let batch := [tick "ESZ4", tick "NQZ4", tick "ESZ4"]
    let c := (Network.system.settle
      ((Scenario.new .default []).start (.publish batch false)).2.timed).world.client
    (∃ x ∈ c.connections, (messages x.log).map Wire.Message.kind =
      [.logonRequest, .subscribe, .tradeUpdate, .subscribe, .tradeUpdate, .tradeUpdate]) ∧
    ∀ x ∈ c.connections, Disciplined .default x.log := by
  refine ⟨by decide +kernel, ?_⟩
  have hnew : Reachable .default (Scenario.new .default []).timed.world.client := .new
  exact Reachable.connections_disciplined
    ((keeps_reachable .default).settle (reachable_start hnew (by intro b h; cases h)))

end Relay
end MarketFeed
