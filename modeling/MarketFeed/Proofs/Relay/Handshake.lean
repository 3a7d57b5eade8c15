import MarketFeed.Proofs.Relay.Logon
import MarketFeed.Proofs.Relay.Obliging
import MarketFeed.Proofs.Relay.Redial

/-!
# MarketFeed.Proofs.Relay.Handshake

A call to connect, from the moment at which it looks at the session until its result.

* `Visit` — what happens from then on: the call goes on, the peer sends on the new connection,
  anything else happens besides, and time passes while the call waits.
* `Undisturbed` — what happens besides leaves the call and its connection alone.
* `Logging` — where the call stands by what the peer has sent so far.
* `connect_outcome` — what comes of the call, and that it is never stuck.
-/

namespace MarketFeed
namespace Relay

open Wire (Frame StartsIncomplete)

/-- A call to connect has come to look at the session. -/
structure Looks (k : Call) (c : Client) : Prop where
  found : c.calls.find? (·.id = k.id) = some k
  task : k.task = .connect
  stage : k.stage = .beforeInspection
  held : c.sessionLock.heldBy k.id = true

/-- No session is alive. -/
def Client.Unserved (c : Client) : Prop := ∀ s, c.session = some s → s.alive = false

/-- What can happen to a client besides a call and connection `n`. -/
inductive Elsewhere (id n : Nat) (c : Client) : Client → Prop where
  | goes {c' : Client} (now : Nat) (j : Call) (hj : c.calls.find? (·.id = j.id) = some j)
      (hne : j.id ≠ id) (hs : c.step now j = some c') : Elsewhere id n c c'
  | reads {c' : Client} (h : c.read = some c') : Elsewhere id n c c'
  | disturbs (m : Nat) (x x' : Connection) (hm : m ≠ n) (hx : c.connections[m]? = some x)
      (hl : x'.log = x.log) (hc : x'.clientClosed = x.clientClosed) :
      Elsewhere id n c (c.onConnection m fun _ => x')
  | listens (b : Bool) : Elsewhere id n c { c with listening := b }
  | calls (task : Task) (ht : ∀ batch, task ≠ .publish batch true) :
      Elsewhere id n c (c.call task).2
  | forgets (j : Call) (r : Except RelayError Unit) (hj : j ∈ c.calls) (hne : j.id ≠ id)
      (hs : j.stage = .finished r) : Elsewhere id n c (c.forget j.id)
  | givesUp (j : Call) (hj : c.calls.find? (·.id = j.id) = some j) (hne : j.id ≠ id)
      (hs : j.stage.ownsSession = false) : Elsewhere id n c (c.abandon j.id)

/-- What happens from the moment `start` at which a call looks at the session of `c`: the stages
from which the call went on, the time, and what the peer has sent on the next connection. -/
inductive Visit (id : Nat) (c : Client) (start : Nat) :
    List Stage → Nat → List UInt8 → Client → Prop where
  | here : Visit id c start [] start [] c
  | goes {trace : List Stage} {now : Nat} {sent : List UInt8} {c' c'' : Client}
      (h : Visit id c start trace now sent c') (k : Call)
      (hk : c'.calls.find? (·.id = id) = some k) (hs : c'.step now k = some c'') :
      Visit id c start (trace ++ [k.stage]) now sent c''
  | sends {trace : List Stage} {now : Nat} {sent : List UInt8} {c' : Client}
      (h : Visit id c start trace now sent c') (x : Connection) (bytes : List UInt8)
      (hx : c'.connections[c.connections.length]? = some x) (hopen : x.peerClosed = false) :
      Visit id c start trace now (sent ++ bytes)
        (c'.onConnection c.connections.length fun _ => { x with incoming := x.incoming ++ bytes })
  | closes {trace : List Stage} {now : Nat} {sent : List UInt8} {c' : Client}
      (h : Visit id c start trace now sent c') (x : Connection)
      (hx : c'.connections[c.connections.length]? = some x) :
      Visit id c start trace now sent
        (c'.onConnection c.connections.length fun _ => { x with peerClosed := true })
  | besides {trace : List Stage} {now : Nat} {sent : List UInt8} {c' c'' : Client}
      (h : Visit id c start trace now sent c') (he : Elsewhere id c.connections.length c' c'') :
      Visit id c start trace now sent c''
  /-- Time passes while the call waits, and not beyond its deadline. -/
  | waits {trace : List Stage} {now : Nat} {sent : List UInt8} {c' : Client}
      (h : Visit id c start trace now sent c') (k : Call) (later : Nat)
      (hk : c'.calls.find? (·.id = id) = some k) (hw : c'.step now k = none) (hl : now ≤ later)
      (hd : ∀ due, Client.alarm? k = some due → later ≤ due) :
      Visit id c start trace later sent c'

/-! ## Besides -/

section Besides

variable {config : RelayConfig} {id n : Nat} {c c' : Client} {k : Call} {now : Nat}

theorem Elsewhere.move (h : Elsewhere id n c c') : Move c c' := by
  cases h with
  | goes now j hj hne hs => exact .goes now j hj hs
  | reads h => exact .around (.reads h)
  | disturbs m x x' hm hx hl hc => exact .around (.disturbs m x x' hx hl hc)
  | listens b => exact .around (.listens b)
  | calls task ht => exact .calls task ht
  | forgets j r hj hne hs => exact .forgets j r hj hs
  | givesUp j hj hne hs => exact .givesUp j hj hs

theorem found_of_mem (hlk : Locked c) (hk : k ∈ c.calls) :
    c.calls.find? (·.id = k.id) = some k := by
  cases hf : c.calls.find? (·.id = k.id) with
  | none => exact absurd (List.find?_eq_none.1 hf k hk) (by simp)
  | some j =>
    have hj : j.id = k.id := by simpa using List.find?_some hf
    rw [eq_of_id_eq hlk.nodup (List.mem_of_find?_eq_some hf) hk hj]

/-- What happens besides loses no call. -/
theorem Elsewhere.found (h : Elsewhere k.id n c c') (hr : Reachable config c) (hk : k ∈ c.calls) :
    c'.calls.find? (·.id = k.id) = some k := by
  refine found_of_mem (Reachable.move hr h.move).locked ?_
  cases h with
  | goes now j hj hne hs => exact others_of_goes (goes_of_step hs) hk hne.symm
  | reads h =>
    rw [(calm_of_around (.reads h)).2]
    exact hk
  | calls task => exact mem_of_call hr.locked task hk
  | forgets j r hj hne => exact List.mem_filter.2 ⟨hk, by simpa using hne.symm⟩
  | givesUp j hj hne =>
    rw [(abandon_spec hj).2.2.2]
    exact List.mem_filter.2 ⟨hk, by simpa using hne.symm⟩
  | _ => exact hk

/-- The connection is left alone, and the call keeps the session if it has it. -/
structure Undisturbed (k : Call) (n : Nat) (c c' : Client) : Prop where
  connection : c'.connections[n]? = c.connections[n]?
  logs : c'.logs = c.logs
  session : c'.session = c.session
  held : c.sessionLock.heldBy k.id = true → c'.sessionLock.heldBy k.id = true

/-- While a call dials or logs on, no step of another touches a connection or the session. -/
theorem same_of_other (hlk : Locked c) (hw : Wired config c) (hk : k ∈ c.calls)
    (hown : k.stage.ownsDial = true)
    (hfree : c.session = none ∨ c.sessionLock.heldBy k.id = true) {j : Call} (hj : j ∈ c.calls)
    (hne : j.id ≠ k.id) (hg : Goes now j c c') :
    c'.connections = c.connections ∧ c'.session = c.session := by
  have hdial {st : Stage} (hst : j.stage = st) (ho : st.ownsDial = true) : False :=
    hne (congrArg Call.id (hlk.ownsDial_unique hj hk (hst ▸ ho) hown))
  have hout {s : Session} (hs : c.session = some s) (hl : c.sessionLock.heldBy j.id = true) :
      False := by
    rcases hfree with hnone | hheld
    · rw [hnone] at hs
      cases hs
    · exact hne (heldBy_unique hl hheld)
  have hsend {s : Session} {st : Stage} (hs : c.session = some s) (hst : j.stage = st)
      (ho : st.ownsSession = true) : False :=
    hout hs (hlk.session.head j hj (hst ▸ ho))
  cases hg with
  | findsLive s hs => exact (hdial hs rfl).elim
  | findsNone hs => exact (hdial hs rfl).elim
  | refused hs => exact (hdial hs rfl).elim
  | dials hs => exact (hdial hs rfl).elim
  | hearsBeat m due x x' f d hs => exact (hdial hs rfl).elim
  | welcomed m due x x' f v text hs => exact (hdial hs rfl).elim
  | failsLogon m due x x' e hs => exact (hdial hs rfl).elim
  | installs m hs => exact (hdial hs rfl).elim
  | trades s t rest i x x' hs hc => exact (hsend hc hs rfl).elim
  | asks s t rest x x' hs hc => exact (hsend hc hs rfl).elim
  | isConfirmed s t rest i due f q x x' hs hc => exact (hsend hc hs rfl).elim
  | isRejected s t rest i due f q reason hs hc => exact (hsend hc hs rfl).elim
  | failsSending s' e hs hl hc he =>
    rw [hw.drops hc he]
    obtain ⟨-, -, hsession, hconns⟩ := failAttempt_spec (c.dropSession.leaveSession j.id) j e
    rw [hsession, hconns]
    cases hnone : c.session with
    | none =>
      rw [Client.dropSession_of_none hnone]
      exact ⟨rfl, hnone⟩
    | some s =>
      refine (hout hnone ?_).elim
      cases hst : j.stage with
      | beforeSending => exact hl hst
      | sending rest => exact (hsend hnone hst rfl).elim
      | subscribing t rest i due => exact (hsend hnone hst rfl).elim
      | _ =>
        rw [hst] at hs
        cases hs
  | restarts e task hs => exact (hdial hs rfl).elim
  | closes hs => exact (hdial hs rfl).elim
  | _ => exact ⟨rfl, rfl⟩

theorem abandon_connections {j : Call} (hj : c.calls.find? (·.id = j.id) = some j)
    (hown : Client.ownConnection? j = none) : (c.abandon j.id).connections = c.connections := by
  simp only [Client.abandon, hj, hown]
  cases Client.isDialling j <;> rfl

/-- A call that dials or logs on is left alone by all that happens besides. -/
theorem Elsewhere.undisturbed (h : Elsewhere k.id n c c') (hr : Reachable config c)
    (hk : k ∈ c.calls) (hown : k.stage.ownsDial = true) (hunserved : c.Unserved)
    (hfree : c.session = none ∨ c.sessionLock.heldBy k.id = true) : Undisturbed k n c c' := by
  have hat (hc : c'.connections = c.connections) :
      c'.connections[n]? = c.connections[n]? ∧ c'.logs = c.logs := ⟨by rw [hc], logs_congr hc⟩
  cases h with
  | goes now j hj hne hs =>
    have hjmem := List.mem_of_find?_eq_some hj
    have hg := goes_of_step hs
    obtain ⟨hconns, hsession⟩ := same_of_other hr.locked hr.wired hk hown hfree hjmem hne hg
    exact ⟨(hat hconns).1, (hat hconns).2, hsession, heldBy_of_goes hr.locked hjmem hg hne.symm⟩
  | reads h =>
    -- there is no reader at work
    obtain ⟨s, -, -, hs, ha, -⟩ := read_cases h
    rw [hunserved s hs] at ha
    cases ha
  | disturbs m x x' hm hx hl =>
    refine ⟨onConnection_getElem?_ne hm, Client.onConnection_logs_of_log fun y hy => ?_, rfl, id⟩
    rw [hx] at hy
    cases hy
    exact hl
  | listens b => exact ⟨rfl, rfl, rfl, id⟩
  | calls task ht =>
    obtain ⟨hlock, hsession, hconns, -⟩ := call_spec c task
    exact ⟨(hat hconns).1, (hat hconns).2, hsession, fun hl => by rw [hlock]; exact hl⟩
  | forgets j r hj hne hs => exact ⟨rfl, rfl, rfl, id⟩
  | givesUp j hj hne hs =>
    have hjmem := List.mem_of_find?_eq_some hj
    have hno : Client.ownConnection? j = none := by
      cases hn : Client.ownConnection? j with
      | none => rfl
      | some m =>
        have ho := (own_spec hr.wired hjmem hn).1
        exact absurd (congrArg Call.id (hr.locked.ownsDial_unique hjmem hk ho hown)) hne
    have hconns := abandon_connections hj hno
    refine ⟨(hat hconns).1, (hat hconns).2, (abandon_spec hj).2.1, fun hl => ?_⟩
    rw [(abandon_locks hj).1]
    exact heldBy_leave hl hne.symm

end Besides

/-! ## The course of a logon -/

/-- When the logon is too late. -/
def logonDue (config : RelayConfig) (start : Nat) : Nat := start + config.handshakeTimeout.toNanos

/-- Where a call to connect stands by what the peer has sent so far. -/
inductive Logging (config : RelayConfig) (c : Client) (start : Nat) (trace : List Stage) (now : Nat)
    (sent : List UInt8) (c' : Client) (k : Call) : Prop where
  | looking (hs : k.stage = .beforeInspection) (ht : dials trace = 0) (hn : now = start)
      (hb : sent = []) (hl : c'.logs = c.logs) (hu : c'.Unserved)
      (hh : c'.sessionLock.heldBy k.id = true)
  | dialling (hs : k.stage = .dialling) (ht : dials trace = 0) (hn : now = start) (hb : sent = [])
      (hl : c'.logs = c.logs)
  | loggingOn (x : Connection) (beats : List Frame)
      (hs : k.stage = .loggingOn c.connections.length (logonDue config start))
      (ht : dials trace = 1) (hn : now ≤ logonDue config start)
      (hx : c'.connections[c.connections.length]? = some x)
      (hl : c'.logs = c.logs ++ [.wrote (Client.logonRequest config) :: beats.map .took])
      (hbeats : ∀ f ∈ beats, Beats f) (hb : sent = beats.flatMap Frame.bytes ++ x.incoming)
  | installing (x : Connection) (beats : List Frame) (f : Frame)
      (hs : k.stage = .beforeInstallation c.connections.length) (ht : dials trace = 1)
      (hx : c'.connections[c.connections.length]? = some x)
      (hl : c'.logs = c.logs ++ [.wrote (Client.logonRequest config) :: (beats ++ [f]).map .took])
      (hbeats : ∀ g ∈ beats, Beats g) (hf : Accepts f)
      (hb : sent = beats.flatMap Frame.bytes ++ (f.bytes ++ x.incoming))
  | finished (r : Except RelayError Unit) (hs : k.stage = .finished r)

section Course

variable {config : RelayConfig} {c c' c'' : Client} {start now : Nat} {trace : List Stage}
  {sent : List UInt8} {k : Call}

theorem length_of_logs (h : c'.logs = c.logs) : c'.connections.length = c.connections.length := by
  rw [← c'.length_logs, h, c.length_logs]

/-- The next connection is not there yet. -/
theorem no_connection (h : c'.logs = c.logs) : c'.connections[c.connections.length]? = none := by
  rw [List.getElem?_eq_none]
  rw [length_of_logs h]

/-- A change to the connection that was dialled since. -/
theorem logs_of_last {log : List Exchange} {x : Connection}
    (hx : c'.connections[c.connections.length]? = some x) (hl : c'.logs = c.logs ++ [log]) :
    x.log = log ∧ ∀ x', (c'.onConnection c.connections.length fun _ => x').logs =
      c.logs ++ [x'.log] := by
  constructor
  · have hat := (c'.logs_getElem? c.connections.length).trans (congrArg _ hx)
    rw [hl, ← c.length_logs, List.getElem?_concat_length] at hat
    exact (Option.some.inj hat).symm
  · intro x'
    rw [c'.onConnection_logs, hl, ← c.length_logs, List.set_append_right _ _ (Nat.le_refl _),
      Nat.sub_self]
    rfl

theorem unserved_of_none (h : c.session = none) : c.Unserved := fun s hs => by
  rw [h] at hs
  cases hs

theorem failure_connect (ht : k.task = .connect) (e : RelayError) :
    k.failure e = .finished (.error e) := by
  simp [Call.failure, Call.retries, ht]

theorem readiness_connect (ht : k.task = .connect) : k.readiness = .finished (.ok ()) := by
  simp [Call.readiness, ht]

theorem dials_step {st : Stage} {n : Nat} (hst : k.stage = st) (ht : dials trace = n) :
    dials (trace ++ [k.stage]) = n + if st.dials then 1 else 0 := by
  rw [dials_concat, hst, ht]

/-- A call that finds no live session goes on to dial. -/
theorem step_of_unserved (hst : k.stage = .beforeInspection) (hu : c'.Unserved)
    (hh : c'.sessionLock.heldBy k.id = true) (hs : c'.step now k = some c'') :
    c''.calls = restage c'.calls k.id .dialling ∧ c''.logs = c'.logs := by
  simp only [Client.step, hst, hh, if_true] at hs
  cases hses : c'.session with
  | none =>
    rw [hses] at hs
    cases hs
    exact ⟨rfl, rfl⟩
  | some s =>
    obtain ⟨xs, hd⟩ := c'.dropSession_spec
    simp only [hses, hu s hses, Bool.false_eq_true, if_false] at hs
    cases hs
    exact ⟨by rw [hd]; rfl, c'.dropSession_logs⟩

/-- A call that installs its session succeeds. -/
theorem step_of_installation {n : Nat} (hst : k.stage = .beforeInstallation n)
    (hnone : c'.session = none) (hs : c'.step now k = some c'') :
    c'' = Client.connected { c' with session := some (.start n) } k := by
  simp only [Client.step, hst, Client.dropSession_of_none hnone] at hs
  split at hs
  · exact (Option.some.inj hs).symm
  · cases hs

/-- The call has come to stage `st`. -/
theorem logging_to {st : Stage} (hk : c'.calls.find? (·.id = k.id) = some k) (ht : k.task = .connect)
    (hc : c''.calls = restage c'.calls k.id st)
    (h : Logging config c start trace now sent c'' { k with stage := st }) :
    ∃ k', c''.calls.find? (·.id = k.id) = some k' ∧ k'.task = .connect ∧
      Logging config c start trace now sent c'' k' :=
  ⟨{ k with stage := st }, by rw [hc]; exact find?_restage hk st, ht, h⟩

/-- One step of the call. -/
theorem Logging.goes (h : Logging config c start trace now sent c' k) (hw : Wired config c')
    (hk : c'.calls.find? (·.id = k.id) = some k) (ht : k.task = .connect)
    (hs : c'.step now k = some c'') :
    ∃ k', c''.calls.find? (·.id = k.id) = some k' ∧ k'.task = .connect ∧
      Logging config c start (trace ++ [k.stage]) now sent c'' k' := by
  have hfail (e : RelayError) (hc : c''.calls = restage c'.calls k.id (k.failure e)) :
      ∃ k', c''.calls.find? (·.id = k.id) = some k' ∧ k'.task = .connect ∧
        Logging config c start (trace ++ [k.stage]) now sent c'' k' :=
    logging_to hk ht hc (.finished (.error e) (failure_connect ht e))
  cases h with
  | looking hst htr hn hb hl hu hh =>
    obtain ⟨hc, hlogs⟩ := step_of_unserved hst hu hh hs
    exact logging_to hk ht hc (.dialling rfl (dials_step hst htr) hn hb (hlogs.trans hl))
  | dialling hst htr hn hb hl =>
    rcases goes_of_dialling hst (goes_of_step hs) with ⟨-, rfl⟩ | rfl
    · exact hfail (.io .refused) (failConnect_spec c' k _).2.2.2
    · subst hn
      have hlen := length_of_logs hl
      rw [hlen, Client.deadline, hw.same]
      refine logging_to hk ht rfl (.loggingOn
        { Connection.fresh with log := [.wrote (Client.logonRequest config)] } [] rfl
        (dials_step hst htr) (Nat.le_add_right _ _) ?_ ?_ (List.forall_mem_nil _) hb)
      · simp only [Client.setStage, ← hlen]
        exact List.getElem?_concat_length
      · simp only [Client.setStage, Client.logs, List.map_append] at hl ⊢
        rw [hl]
        rfl
  | loggingOn x beats hst htr hn hx hl hbeats hb =>
    obtain ⟨hxlog, hset⟩ := logs_of_last hx hl
    have hlast (tail : List UInt8) (f : Frame) :
        (c'.onConnection c.connections.length fun _ =>
          { x with incoming := tail, log := x.log ++ [.took f] }).logs =
          c.logs ++ [.wrote (Client.logonRequest config) :: (beats ++ [f]).map .took] := by
      rw [hset, hxlog, List.map_append]
      rfl
    simp only [Client.step, hst] at hs
    cases hears_of_logOn hx hs with
    | beats f tail hin hf =>
      refine ⟨k, hk, ht, .loggingOn _ (beats ++ [f]) hst (dials_step hst htr) hn
        (onConnection_getElem? hx) (hlast tail f) ?_ ?_⟩
      · intro g hg
        rcases List.mem_append.1 hg with hg | hg
        · exact hbeats g hg
        · rwa [List.mem_singleton.1 hg]
      · rw [hb, hin, flatMap_concat, List.append_assoc]
    | accepted f tail hin hf =>
      refine logging_to hk ht rfl (.installing _ beats f rfl (dials_step hst htr)
        (onConnection_getElem? hx) (hlast tail f) hbeats hf ?_)
      rw [hb, hin]
    | fails e x' hd hlog => exact hfail e (failLogon_calls _ k _ e)
    | late => exact hfail _ (failLogon_calls _ k _ _)
  | installing x beats f hst htr hx hl hbeats hf hb =>
    have hfit := hw.fits k (List.mem_of_find?_eq_some hk)
    rw [hst] at hfit
    rw [step_of_installation hst hfit.1 hs]
    exact logging_to hk ht (connected_spec _ k).1 (.finished (.ok ()) (readiness_connect ht))
  | finished r hst => simp [Client.step, hst] at hs

/-- Bytes of the peer, or its end. -/
theorem Logging.changes (h : Logging config c start trace now sent c' k) {x x' : Connection}
    {bytes : List UInt8} (hx : c'.connections[c.connections.length]? = some x)
    (hlog : x'.log = x.log) (hin : x'.incoming = x.incoming ++ bytes) :
    Logging config c start trace now (sent ++ bytes)
      (c'.onConnection c.connections.length fun _ => x') k := by
  have hlogs : (c'.onConnection c.connections.length fun _ => x').logs = c'.logs := by
    refine Client.onConnection_logs_of_log fun y hy => ?_
    rw [hx] at hy
    cases hy
    exact hlog
  cases h with
  | looking hst htr hn hb hl =>
    rw [no_connection hl] at hx
    cases hx
  | dialling hst htr hn hb hl =>
    rw [no_connection hl] at hx
    cases hx
  | loggingOn y beats hst htr hn hy hl hbeats hb =>
    rw [hx] at hy
    cases hy
    refine .loggingOn x' beats hst htr hn (onConnection_getElem? hx) (hlogs.trans hl) hbeats ?_
    rw [hb, hin, List.append_assoc]
  | installing y beats f hst htr hy hl hbeats hf hb =>
    rw [hx] at hy
    cases hy
    refine .installing x' beats f hst htr (onConnection_getElem? hx) (hlogs.trans hl) hbeats hf ?_
    rw [hb, hin]
    simp only [List.append_assoc]
  | finished r hst => exact .finished r hst

/-- Whatever happens besides. -/
theorem Logging.besides (h : Logging config c start trace now sent c' k) (hr : Reachable config c')
    (hk : k ∈ c'.calls) (he : Elsewhere k.id c.connections.length c' c'') :
    Logging config c start trace now sent c'' k := by
  have hnone {st : Stage} (hst : k.stage = st) (hfit : Fits config c' st → c'.session = none) :
      c'.session = none := hfit (hst ▸ hr.wired.fits k hk)
  cases h with
  | looking hst htr hn hb hl hu hh =>
    have hund := he.undisturbed hr hk (by rw [hst]; rfl) hu (.inr hh)
    refine .looking hst htr hn hb (hund.logs.trans hl) ?_ (hund.held hh)
    rw [Client.Unserved, hund.session]
    exact hu
  | dialling hst htr hn hb hl =>
    have hses := hnone hst id
    have hund := he.undisturbed hr hk (by rw [hst]; rfl) (unserved_of_none hses) (.inl hses)
    exact .dialling hst htr hn hb (hund.logs.trans hl)
  | loggingOn x beats hst htr hn hx hl hbeats hb =>
    have hses := hnone hst And.left
    have hund := he.undisturbed hr hk (by rw [hst]; rfl) (unserved_of_none hses) (.inl hses)
    exact .loggingOn x beats hst htr hn (hund.connection.trans hx) (hund.logs.trans hl) hbeats hb
  | installing x beats f hst htr hx hl hbeats hf hb =>
    have hses := hnone hst And.left
    have hund := he.undisturbed hr hk (by rw [hst]; rfl) (unserved_of_none hses) (.inl hses)
    exact .installing x beats f hst htr (hund.connection.trans hx) (hund.logs.trans hl) hbeats hf hb
  | finished r hst => exact .finished r hst

/-- The call waits. -/
theorem Logging.waits (h : Logging config c start trace now sent c' k) {later : Nat}
    (hw : c'.step now k = none) (hd : ∀ due, Client.alarm? k = some due → later ≤ due) :
    Logging config c start trace later sent c' k := by
  cases h with
  | looking hst htr hn hb hl hu hh =>
    simp only [Client.step, hst, hh, if_true] at hw
    cases hses : c'.session <;> simp only [hses] at hw
    · cases hw
    · split at hw <;> cases hw
  | dialling hst => simp [Client.step, hst] at hw
  | loggingOn x beats hst htr hn hx hl hbeats hb =>
    exact .loggingOn x beats hst htr (hd _ (by rw [Client.alarm?, hst])) hx hl hbeats hb
  | installing x beats f hst htr hx hl hbeats hf hb =>
    exact .installing x beats f hst htr hx hl hbeats hf hb
  | finished r hst => exact .finished r hst

theorem Visit.logging {k₀ : Call} (hr : Reachable config c) (hlooks : Looks k₀ c)
    (hu : c.Unserved) (h : Visit k₀.id c start trace now sent c') :
    Reachable config c' ∧ ∃ k, c'.calls.find? (·.id = k₀.id) = some k ∧ k.task = .connect ∧
      Logging config c start trace now sent c' k := by
  have hid {c' : Client} {k : Call} (hk : c'.calls.find? (·.id = k₀.id) = some k) :
      k.id = k₀.id := by simpa using List.find?_some hk
  induction h with
  | here =>
    exact ⟨hr, k₀, hlooks.found, hlooks.task, .looking hlooks.stage rfl rfl rfl rfl hu hlooks.held⟩
  | goes _ k hk hs ih =>
    obtain ⟨hr', k', hk', ht, hl⟩ := ih
    rw [hk] at hk'
    cases hk'
    have hkid := hid hk
    rw [← hkid] at hk ⊢
    exact ⟨.move hr' (.goes _ k hk hs), hl.goes hr'.wired hk ht hs⟩
  | sends _ x bytes hx hopen ih =>
    obtain ⟨hr', k', hk', ht, hl⟩ := ih
    exact ⟨.move hr' (.around (.disturbs _ x _ hx rfl rfl)), k', hk', ht, hl.changes hx rfl rfl⟩
  | @closes trace now sent c' _ x hx ih =>
    obtain ⟨hr', k', hk', ht, hl⟩ := ih
    have hsame : Logging config c start trace now (sent ++ [])
        (c'.onConnection c.connections.length fun _ => { x with peerClosed := true }) k' :=
      hl.changes hx rfl (List.append_nil _).symm
    rw [List.append_nil] at hsame
    exact ⟨.move hr' (.around (.disturbs _ x _ hx rfl rfl)), k', hk', ht, hsame⟩
  | besides _ he ih =>
    obtain ⟨hr', k', hk', ht, hl⟩ := ih
    have hkid := hid hk'
    rw [← hkid] at he hk' ⊢
    have hmem := List.mem_of_find?_eq_some hk'
    exact ⟨.move hr' he.move, k', he.found hr' hmem, ht, hl.besides hr' hmem he⟩
  | waits _ k later hk hw hl hd ih =>
    obtain ⟨hr', k', hk', ht, hlog⟩ := ih
    rw [hk] at hk'
    cases hk'
    exact ⟨hr', k, hk, ht, hlog.waits hw hd⟩

end Course

/-! ## The end of a logon -/

/-- One connection was dialled and one logon written on it, and nothing was written elsewhere. -/
def OneLogon (config : RelayConfig) (c c' : Client) : Prop :=
  ∃ taken : List Frame,
    c'.logs = c.logs ++ [.wrote (Client.logonRequest config) :: taken.map .took]

/-- How the last step of a call to connect, which began at `c`, ends it. -/
inductive Ended (config : RelayConfig) (c : Client) (start now : Nat) (sent : List UInt8)
    (c' c'' : Client) : Except RelayError Unit → Prop where
  | refused (hl : c'.listening = false) (hlogs : c''.logs = c.logs) :
      Ended config c start now sent c' c'' (.error (.io .refused))
  /-- What follows the frame that accepts the logon is left for the reader of the new session. -/
  | accepted (f : Frame) (x : Connection) (hone : OneLogon config c c'')
      (hsent : Behind sent (f.bytes ++ x.incoming)) (hf : Accepts f)
      (hs : c''.session = some (.start c.connections.length))
      (hx : c''.connections[c.connections.length]? = some x) :
      Ended config c start now sent c' c'' (.ok ())
  | denied (e : RelayError) (x : Connection) (hone : OneLogon config c c'')
      (hsent : Behind sent x.incoming) (hx : c'.connections[c.connections.length]? = some x)
      (hd : Denies x.peerClosed x.incoming e) : Ended config c start now sent c' c'' (.error e)
  | late (x : Connection) (hone : OneLogon config c c'') (hsent : Behind sent x.incoming)
      (hx : c'.connections[c.connections.length]? = some x) (hopen : x.peerClosed = false)
      (hin : StartsIncomplete x.incoming) (hnow : now = logonDue config start) :
      Ended config c start now sent c' c'' (.error (.timeout "logon response"))

/-- But for a server that does not listen, the bytes that the peer has sent tell the result. -/
theorem Ended.reveals {config : RelayConfig} {c c' c'' : Client} {start now : Nat} {sent : List UInt8}
    {r : Except RelayError Unit} (h : Ended config c start now sent c' c'' r) :
    r = .error (.io .refused) ∨ ∃ closed, Reveals closed sent r := by
  cases h with
  | refused => exact .inl rfl
  | accepted f x hone hsent hf => exact .inr ⟨false, .accepts f _ hsent hf⟩
  | denied e x hone hsent hx hd => exact .inr ⟨_, .denies _ e hsent hd⟩
  | late x hone hsent hx hopen hin => exact .inr ⟨_, .nothing _ hsent hopen hin⟩

section End

variable {config : RelayConfig} {c c' c'' : Client} {start now : Nat} {trace : List Stage}
  {sent : List UInt8} {k : Call}

/-- The result of a call to connect that has failed. -/
theorem result_failure (ht : k.task = .connect) (hk : c.calls.find? (·.id = k.id) = some k)
    {e : RelayError} (hc : c'.calls = restage c.calls k.id (k.failure e)) :
    c'.result? k.id = some (.error e) := by
  have hk' := find?_restage hk (k.failure e)
  rw [← hc] at hk'
  rw [result?_eq hk', failure_connect ht]

theorem state_of_none (hs : c.session = none) (hc : c.connecting = false) :
    c.state = .disconnected := by
  rw [Client.state, hc, hs]
  rfl

/-- A logon that fails leaves the client disconnected. -/
theorem ended_failLogon {n : Nat} {e : RelayError} {r : Except RelayError Unit}
    (hr : (c.failLogon k n e).result? k.id = some r) (ht : k.task = .connect)
    (hk : c.calls.find? (·.id = k.id) = some k) (hnone : c.session = none) :
    r = .error e ∧ (c.failLogon k n e).session = none ∧
      (c.failLogon k n e).state = .disconnected := by
  obtain ⟨hsession, hconnecting, -, hcalls⟩ :=
    failConnect_spec (c.onConnection n Connection.close) k e
  have hres : (c.failLogon k n e).result? k.id = some (.error e) := result_failure ht hk hcalls
  rw [hr] at hres
  have hnone' := hsession.trans hnone
  exact ⟨Option.some.inj hres, hnone', state_of_none hnone' hconnecting⟩

theorem oneLogon_of_logs {beats : List Frame} {x : Connection}
    (hx : c'.connections[c.connections.length]? = some x)
    (hl : c'.logs = c.logs ++ [.wrote (Client.logonRequest config) :: beats.map .took])
    {x' : Connection} (hx' : x'.log = x.log ∨ ∃ f, x'.log = x.log ++ [.took f])
    (hlogs : c''.logs = (c'.onConnection c.connections.length fun _ => x').logs) :
    OneLogon config c c'' := by
  obtain ⟨hxlog, hset⟩ := logs_of_last hx hl
  rw [hset] at hlogs
  rcases hx' with hx' | ⟨f, hx'⟩
  · exact ⟨beats, by rw [hlogs, hx', hxlog]⟩
  · refine ⟨beats ++ [f], ?_⟩
    rw [hlogs, hx', hxlog, List.map_append]
    rfl

/-- The last step of the call. -/
theorem Logging.ends (h : Logging config c start trace now sent c' k) (hw : Wired config c')
    (hk : c'.calls.find? (·.id = k.id) = some k) (ht : k.task = .connect)
    (hs : c'.step now k = some c'') {r : Except RelayError Unit}
    (hr : c''.result? k.id = some r) :
    dials (trace ++ [k.stage]) = 1 ∧ Ended config c start now sent c' c'' r ∧
      ((∃ e, r = .error e) → c''.session = none ∧ c''.state = .disconnected) := by
  have hfit := hw.fits k (List.mem_of_find?_eq_some hk)
  -- a call that only moves on has no result
  have hon {st : Stage} (hc : c''.calls = restage c'.calls k.id st) (hst : ∀ r, st ≠ .finished r) :
      False := by
    have hk' := find?_restage hk st
    rw [← hc] at hk'
    exact hst r (stage_of_result hk' hr)
  cases h with
  | looking hst htr hn hb hl hu hh =>
    exact (hon (step_of_unserved hst hu hh hs).1 fun r h => by cases h).elim
  | dialling hst htr hn hb hl =>
    rw [hst] at hfit
    have hnone : c'.session = none := hfit
    rcases goes_of_dialling hst (goes_of_step hs) with ⟨hlisten, rfl⟩ | rfl
    · obtain ⟨hsession, hconnecting, hconns, hcalls⟩ := failConnect_spec c' k (.io .refused)
      have hres := result_failure ht hk hcalls
      rw [hr] at hres
      cases hres
      have hnone' := hsession.trans hnone
      exact ⟨dials_step hst htr, .refused hlisten ((logs_congr hconns).trans hl),
        fun _ => ⟨hnone', state_of_none hnone' hconnecting⟩⟩
    · exact (hon rfl fun r h => by cases h).elim
  | loggingOn x beats hst htr hn hx hl hbeats hb =>
    rw [hst] at hfit
    have hnone : c'.session = none := hfit.1
    simp only [Client.step, hst] at hs
    cases hears_of_logOn hx hs with
    | beats f tail hin hf =>
      exact absurd (stage_of_result hk hr) (by rw [hst]; intro h; cases h)
    | accepted f tail hin hf => exact (hon rfl fun r h => by cases h).elim
    | fails e x' hd hlog =>
      obtain ⟨rfl, hnone', hstate⟩ := ended_failLogon hr ht hk hnone
      exact ⟨dials_step hst htr, .denied e x (oneLogon_of_logs hx hl hlog (failLogon_logs _ k _ e))
        ⟨beats, hbeats, hb⟩ hx hd, fun _ => ⟨hnone', hstate⟩⟩
    | late hin hopen hdue =>
      obtain ⟨rfl, hnone', hstate⟩ := ended_failLogon hr ht hk hnone
      have hself := congrArg Client.logs (Client.onConnection_self hx).symm
      exact ⟨dials_step hst htr,
        .late x (oneLogon_of_logs hx hl (.inl rfl) ((failLogon_logs _ k _ _).trans hself))
        ⟨beats, hbeats, hb⟩ hx hopen hin (Nat.le_antisymm hn hdue), fun _ => ⟨hnone', hstate⟩⟩
  | installing x beats f hst htr hx hl hbeats hf hb =>
    rw [hst] at hfit
    have hlast := step_of_installation hst hfit.1 hs
    subst hlast
    obtain ⟨hcalls, -, hsession, hconns⟩ := connected_spec
      { c' with session := some (Session.start c.connections.length) } k
    have hk' := find?_restage hk k.readiness
    rw [← hcalls] at hk'
    rw [result?_eq hk', readiness_connect ht] at hr
    cases hr
    have hlogs : (Client.connected { c' with session := some (Session.start c.connections.length) }
        k).logs = c.logs ++ [.wrote (Client.logonRequest config) :: (beats ++ [f]).map .took] :=
      (logs_congr hconns).trans hl
    refine ⟨dials_step hst htr, .accepted f x ⟨_, hlogs⟩ ⟨beats, hbeats, hb⟩ hf hsession ?_,
      fun h => ?_⟩
    · rw [hconns]
      exact hx
    · obtain ⟨e, he⟩ := h
      cases he
  | finished r hst => simp [Client.step, hst] at hs

/-- A call without a result: it can go on, it waits for its peer and its deadline, or it waits for
the session, which another call holds that can go on. -/
inductive Continues (config : RelayConfig) (c : Client) (start now : Nat) (sent : List UInt8)
    (c' : Client) (k : Call) : Prop where
  | goes (h : (c'.step now k).isSome = true)
  | waits (x : Connection) (hx : c'.connections[c.connections.length]? = some x)
      (hopen : x.peerClosed = false) (hsent : Behind sent x.incoming)
      (hin : StartsIncomplete x.incoming) (hnow : now < logonDue config start)
      (halarm : Client.alarm? k = some (logonDue config start))
  | yields (j : Call) (hj : j ∈ c'.calls) (hne : j.id ≠ k.id) (h : (c'.step now j).isSome = true)

theorem Logging.continues (h : Logging config c start trace now sent c' k) (hlk : Locked c')
    (hw : Wired config c') (hk : k ∈ c'.calls) (hr : ∀ r, k.stage ≠ .finished r) :
    Continues config c start now sent c' k := by
  cases h with
  | looking hst htr hn hb hl hu hh =>
    refine .goes (goesOn_of_held hw hk (fun _ => hlk.dial.head k hk (by rw [hst]; rfl))
      (fun _ => hh) hr ?_)
    rw [Client.alarm?, hst]
    intro due hdue
    cases hdue
  | dialling hst => exact .goes (by simp [Client.step, hst])
  | loggingOn x beats hst htr hn hx hl hbeats hb =>
    cases hgo : c'.step now k with
    | some c'' => exact .goes (by rw [hgo]; rfl)
    | none =>
      simp only [Client.step, hst] at hgo
      obtain ⟨hin, hopen, hnow⟩ := waits_of_logOn hx hgo
      exact .waits x hx hopen ⟨beats, hbeats, hb⟩ hin hnow (by rw [Client.alarm?, hst])
  | installing x beats f hst htr hx hl hbeats hf hb =>
    have hown : k.stage.ownsDial = true := by rw [hst]; rfl
    have hask : k.stage.inSession = true := by rw [hst]; rfl
    have hnone : c'.session = none := by
      have hfit := hw.fits k hk
      rw [hst] at hfit
      exact hfit.1
    cases hq : c'.sessionLock.queue with
    | nil =>
      have hmem := (hlk.session.mem_iff k.id).2 ⟨k, hk, rfl, hask⟩
      rw [hq] at hmem
      cases hmem
    | cons id rest =>
      have hheld : c'.sessionLock.heldBy id = true := heldBy_iff.2 ⟨rest, hq⟩
      obtain ⟨j, hj, rfl, hin⟩ := (hlk.session.mem_iff id).1 (by rw [hq]; exact .head _)
      by_cases hjk : j.id = k.id
      · rw [hjk] at hheld
        exact .goes (by simp [Client.step, hst, hheld])
      · -- whoever holds the session without dialling finds none and goes on
        refine .yields j hj hjk ?_
        have hout (hd : j.stage.ownsDial = true) : False :=
          hjk (congrArg Call.id (hlk.ownsDial_unique hj hk hd hown))
        cases hjst : j.stage with
        | beforeSending => simp [Client.step, hjst, hheld, hnone]
        | sending rest => simp [Client.step, hjst, hnone]
        | subscribing t rest i due => simp [Client.step, hjst, hnone]
        | beforeInspection => exact (hout (by rw [hjst]; rfl)).elim
        | beforeInstallation n => exact (hout (by rw [hjst]; rfl)).elim
        | tearingDown e => exact (hout (by rw [hjst]; rfl)).elim
        | closing => exact (hout (by rw [hjst]; rfl)).elim
        | _ =>
          rw [hjst] at hin
          cases hin
  | finished r hst => exact absurd hst (hr r)

end End

/-! ## The outcome -/

/-- With a live session nothing is dialled and nothing written. -/
structure Spared (c c' : Client) (id : Nat) : Prop where
  result : c'.result? id = some (.ok ())
  session : c'.session = c.session
  connections : c'.connections = c.connections

section Outcome

variable {config : RelayConfig} {c c' : Client} {k : Call}

/-- Where no call is under way, a call to connect comes to look at the session as it is. -/
theorem looks_of_call (hr : Reachable config c) (hidle : Idle c) (now : Nat) :
    ∃ k c₁, (c.call .connect).2.step now ⟨c.nextCall, .connect, .beforeConnect⟩ = some c₁ ∧
      Looks k c₁ ∧ k.id = c.nextCall ∧ c₁.session = c.session ∧ c₁.connections = c.connections := by
  have hfound : (c.call .connect).2.calls.find? (·.id = c.nextCall) =
      some ⟨c.nextCall, .connect, .beforeConnect⟩ := call_connects hr.locked rfl
  have hfree {l : Lock} {asks owns : Stage → Bool} (hl : Serves l c.calls asks owns)
      (ha : ∀ r, asks (.finished r) = false) : l.queue = [] := by
    refine List.eq_nil_iff_forall_not_mem.2 fun id hid => ?_
    obtain ⟨j, hj, -, hasks⟩ := (hl.mem_iff id).1 hid
    obtain ⟨r, hst⟩ := hidle j hj
    rw [hst, ha] at hasks
    cases hasks
  have hdial : (c.call .connect).2.dialLock.heldBy c.nextCall = true := by
    refine heldBy_iff.2 ⟨[], ?_⟩
    show c.dialLock.queue ++ [c.nextCall] = [c.nextCall]
    rw [hfree hr.locked.dial fun _ => rfl]
    rfl
  refine ⟨⟨c.nextCall, .connect, .beforeInspection⟩,
    ((c.call .connect).2.joinSession c.nextCall).setStage c.nextCall .beforeInspection, by
      simp only [Client.step, hdial, if_true], ⟨?_, rfl, rfl, ?_⟩, rfl, rfl, rfl⟩
  · exact find?_restage hfound _
  · refine heldBy_iff.2 ⟨[], ?_⟩
    show c.sessionLock.queue ++ [c.nextCall] = [c.nextCall]
    rw [hfree hr.locked.session fun _ => rfl]
    rfl

theorem Looks.spares (h : Looks k c) {s : Session} (hs : c.session = some s)
    (hal : s.alive = true) (now : Nat) : ∃ c', c.step now k = some c' ∧ Spared c c' k.id := by
  refine ⟨c.connected k, ?_, ?_⟩
  · simp only [Client.step, h.stage, h.held, if_true, hs, hal]
  · obtain ⟨hcalls, -, hsession, hconns⟩ := connected_spec c k
    have hk' := find?_restage h.found k.readiness
    rw [← hcalls] at hk'
    refine ⟨?_, hsession, hconns⟩
    rw [result?_eq hk', readiness_connect h.task]

/-- A call to connect looks at the session. If that is alive, the call succeeds at once, and nothing
is dialled or written. If not, the call is never stuck, and its last step ends it as the bytes that
the peer has sent so far and the deadline tell. -/
theorem connect_outcome (hr : Reachable config c) (hlooks : Looks k c) :
    (∀ s, c.session = some s → s.alive = true → ∀ now, ∃ c', c.step now k = some c' ∧
      Spared c c' k.id) ∧
    (c.Unserved → ∀ start trace now sent c', Visit k.id c start trace now sent c' →
      ∃ k', c'.calls.find? (·.id = k.id) = some k' ∧
        (c'.result? k.id = none → Continues config c start now sent c' k') ∧
        ∀ c'', c'.step now k' = some c'' → ∀ r, c''.result? k.id = some r →
          dials (trace ++ [k'.stage]) = 1 ∧ Ended config c start now sent c' c'' r ∧
            ((∃ e, r = .error e) → c''.session = none ∧ c''.state = .disconnected)) := by
  refine ⟨fun s hs hal => hlooks.spares hs hal, fun hu start trace now sent c' hvisit => ?_⟩
  obtain ⟨hr', k', hk', ht, hlog⟩ := hvisit.logging hr hlooks hu
  have hkid : k'.id = k.id := by simpa using List.find?_some hk'
  rw [← hkid] at hk' ⊢
  refine ⟨k', hk', fun hnone => ?_, fun c'' hs r hres => hlog.ends hr'.wired hk' ht hs hres⟩
  refine hlog.continues hr'.locked hr'.wired (List.mem_of_find?_eq_some hk') fun r hst => ?_
  rw [result?_eq hk', hst] at hnone
  cases hnone

end Outcome

/-! ## Two visits -/

namespace Visit

/-- What a visit has come to. -/
structure Moment where
  trace : List Stage
  now : Nat
  sent : List UInt8
  client : Client

/-- One entry of the schedule of a visit. -/
inductive Cue where
  | goes
  | sends (bytes : List UInt8)
  | waits (later : Nat)

/-- The next moment, for a call on connection `n`. -/
def Cue.happens (id n : Nat) (m : Moment) : Cue → Option Moment
  | .goes => (m.client.calls.find? (·.id = id)).bind fun k =>
    (m.client.step m.now k).map fun c => ⟨m.trace ++ [k.stage], m.now, m.sent, c⟩
  | .sends bytes => m.client.connections[n]?.bind fun x =>
    if x.peerClosed = false then
      some ⟨m.trace, m.now, m.sent ++ bytes,
        m.client.onConnection n fun _ => { x with incoming := x.incoming ++ bytes }⟩
    else none
  | .waits later => (m.client.calls.find? (·.id = id)).bind fun k =>
    if (m.client.step m.now k).isNone ∧ m.now ≤ later ∧ ∀ due ∈ Client.alarm? k, later ≤ due then
      some ⟨m.trace, later, m.sent, m.client⟩
    else none

def play (id n : Nat) (m : Moment) (cues : List Cue) : Option Moment :=
  cues.foldlM (Cue.happens id n) m

variable {id start : Nat} {c : Client} {m m' : Moment}

theorem happens {e : Cue} (h : Visit id c start m.trace m.now m.sent m.client)
    (he : e.happens id c.connections.length m = some m') :
    Visit id c start m'.trace m'.now m'.sent m'.client := by
  cases e with
  | goes =>
    obtain ⟨k, hk, he⟩ := Option.bind_eq_some_iff.1 he
    obtain ⟨c', hs, rfl⟩ := Option.map_eq_some_iff.1 he
    exact .goes h k hk hs
  | sends bytes =>
    obtain ⟨x, hx, he⟩ := Option.bind_eq_some_iff.1 he
    split at he
    · next hopen =>
      cases he
      exact .sends h x bytes hx hopen
    · cases he
  | waits later =>
    obtain ⟨k, hk, he⟩ := Option.bind_eq_some_iff.1 he
    split at he
    · next hw =>
      cases he
      exact .waits h k later hk (Option.isNone_iff_eq_none.1 hw.1) hw.2.1 hw.2.2
    · cases he

theorem plays {cues : List Cue} (h : Visit id c start m.trace m.now m.sent m.client)
    (hp : play id c.connections.length m cues = some m') :
    Visit id c start m'.trace m'.now m'.sent m'.client := by
  induction cues generalizing m with
  | nil =>
    cases hp
    exact h
  | cons e rest ih =>
    rw [play, List.foldlM_cons] at hp
    obtain ⟨m₁, he, hrest⟩ := Option.bind_eq_some_iff.1 hp
    exact ih (h.happens he) hrest

/-- A client at its first call, which is to connect and looks at the session. -/
def early : Client :=
  ((((Client.new .default).call .connect).2.joinSession 0).setStage 0 .beforeInspection)

def visitor : Call := ⟨0, .connect, .beforeInspection⟩

def opening : Moment := ⟨[], 0, [], early⟩

def beat : List UInt8 := (Wire.Message.heartbeat 7).encode

/-- Two heartbeats, and the welcome with three more bytes behind it, in two pieces. -/
def welcoming : List Cue :=
  [.goes, .goes, .sends (beat ++ beat.take 3), .goes, .waits 5,
    .sends (beat.drop 3 ++ (Wire.Message.logonResponse 8 1 "welcome").encode ++ [1, 2, 3]), .goes,
    .goes]

/-- Heartbeats, the last of them at the deadline, and nothing else. -/
def silent : List Cue :=
  [.goes, .goes, .sends beat, .goes, .waits 4000000000, .sends beat, .goes, .waits 5000000000,
    .sends beat, .goes]

/-- The call comes to a result with its next step. -/
def ends (cues : List Cue) (p : Moment → Client → Bool) : Bool :=
  (play 0 0 opening cues).any fun m =>
    (m.client.calls.find? (·.id = 0)).any fun k => (m.client.step m.now k).any (p m)

theorem of_ends (cues : List Cue) {p : Moment → Client → Bool} (h : ends cues p = true) :
    ∃ m k c', Visit 0 early 0 m.trace m.now m.sent m.client ∧
      m.client.calls.find? (·.id = 0) = some k ∧ m.client.step m.now k = some c' ∧
      p m c' = true := by
  obtain ⟨m, hm, h⟩ := (Option.any_eq_true _ _).1 h
  obtain ⟨k, hk, h⟩ := (Option.any_eq_true _ _).1 h
  obtain ⟨c', hs, hp⟩ := (Option.any_eq_true _ _).1 h
  have hlen : early.connections.length = 0 := rfl
  exact ⟨m, k, c', Visit.here.plays (m := opening) (hlen ▸ hm), hk, hs, hp⟩

theorem looks_early : Looks visitor early := ⟨rfl, rfl, rfl, rfl⟩

theorem reachable_early : Reachable .default early :=
  .move (.move .new (.calls .connect nofun)) (.goes 0 ⟨0, .connect, .beforeConnect⟩ rfl rfl)

theorem unserved_early : early.Unserved := unserved_of_none rfl

/-- A call that is the only one and has a result leaves the client idle. -/
theorem idle_of_result {c : Client} {r : Except RelayError Unit} (h : c.result? 0 = some r)
    (hl : c.calls.length = 1) : Idle c := by
  obtain ⟨k, hone⟩ := List.length_eq_one_iff.1 hl
  intro j hj
  rw [hone, List.mem_singleton] at hj
  subst hj
  cases hk : c.calls.find? (·.id = 0) with
  | none =>
    rw [Client.result?, hk] at h
    cases h
  | some i =>
    have hi := List.mem_of_find?_eq_some hk
    rw [hone, List.mem_singleton] at hi
    exact ⟨r, hi ▸ stage_of_result hk h⟩

end Visit

open Visit in
/-- A welcome behind two heartbeats lets the call in, and the next call to connect is spared. A peer
that sends nothing but heartbeats, the last one at the deadline, is too late. -/
theorem connect_outcome_told :
    (∃ trace now sent c' c'', Visit 0 early 0 trace now sent c' ∧
      Ended .default early 0 now sent c' c'' (.ok ()) ∧
      (c''.connections[0]?.map (·.incoming)) = some [1, 2, 3] ∧
      ∃ k c₁ c₂, Looks k c₁ ∧ c₁.connections = c''.connections ∧ c₁.step now k = some c₂ ∧
        Spared c₁ c₂ k.id) ∧
    ∃ trace now sent c' c'', Visit 0 early 0 trace now sent c' ∧ now = 5000000000 ∧
      sent = beat ++ beat ++ beat ∧
      Ended .default early 0 now sent c' c'' (.error (.timeout "logon response")) := by
  have hout := connect_outcome reachable_early looks_early
  constructor
  · obtain ⟨m, k, c'', hvisit, hk, hs, hp⟩ := of_ends welcoming
      (p := fun _ c => c.result? 0 = some (.ok ()) && c.calls.length = 1 &&
        (c.connections[0]?.map (·.incoming)) = some [1, 2, 3]) (by decide +kernel)
    simp only [Bool.and_eq_true, decide_eq_true_eq] at hp
    obtain ⟨⟨hres, hlen⟩, hin⟩ := hp
    obtain ⟨k', hk', -, hend⟩ := hout.2 unserved_early _ _ _ _ _ hvisit
    have hkk : k = k' := Option.some.inj (hk.symm.trans hk')
    subst hkk
    have hended := (hend c'' hs _ hres).2.1
    -- the second call
    have hid : k.id = 0 := by simpa using List.find?_some hk
    have hr : Reachable .default c'' :=
      .move (hvisit.logging reachable_early looks_early unserved_early).1 (.goes _ k (hid ▸ hk) hs)
    obtain ⟨k₂, c₁, hstep, hlooks, -, hsession, hconns⟩ :=
      looks_of_call hr (idle_of_result hres hlen) m.now
    have hlive : ∃ s, c₁.session = some s ∧ s.alive = true := by
      cases hended with
      | accepted f x hone hsent hf hnew => exact ⟨_, hsession.trans hnew, rfl⟩
    obtain ⟨s, hsome, halive⟩ := hlive
    have hr₁ : Reachable .default c₁ :=
      .move (.move hr (.calls .connect nofun)) (.goes _ _ (call_connects hr.locked rfl) hstep)
    obtain ⟨c₂, hgo, hspared⟩ := (connect_outcome hr₁ hlooks).1 s hsome halive m.now
    exact ⟨_, _, _, _, _, hvisit, hended, hin, k₂, c₁, c₂, hlooks, hconns, hgo, hspared⟩
  · obtain ⟨m, k, c'', hvisit, hk, hs, hp⟩ := of_ends silent
      (p := fun m c => m.now = 5000000000 && m.sent = beat ++ beat ++ beat &&
        c.result? 0 = some (.error (.timeout "logon response"))) (by decide +kernel)
    simp only [Bool.and_eq_true, decide_eq_true_eq] at hp
    obtain ⟨⟨hnow, hsent⟩, hres⟩ := hp
    obtain ⟨k', hk', -, hend⟩ := hout.2 unserved_early _ _ _ _ _ hvisit
    have hkk : k = k' := Option.some.inj (hk.symm.trans hk')
    subst hkk
    exact ⟨_, _, _, _, _, hvisit, hnow, hsent, (hend c'' hs _ hres).2.1⟩

end Relay
end MarketFeed
