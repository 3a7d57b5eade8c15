import MarketFeed.Proofs.Relay.Teardown

/-!
# MarketFeed.Proofs.Relay.Redial

A call that connects while there is no session.

* `Reachable.isDialling_of_connecting` — the client is connecting only while a call dials or logs
  on; `Reachable.state_of_idle`: so it is disconnected when nothing goes on and there is no session.
* `Lull` — what can happen between two calls that are made one after the other.
* `Renewing` — what the run of such a call keeps: it leaves the old connections alone.
* `Run.redials` — it dials before it has a result, and counts its requests from one.
-/

namespace MarketFeed
namespace Relay

section Connecting

variable {config : RelayConfig} {c c' : Client} {now : Nat} {k : Call}

/-! ## Who is connecting -/

theorem failAttempt_connecting (c : Client) (k : Call) (e : RelayError) :
    (c.failAttempt k e).connecting = c.connecting := by
  rw [Client.failAttempt_eq]
  split <;> rfl

theorem mem_of_call (hlk : Locked c) (task : Task) {j : Call} (hj : j ∈ c.calls) :
    j ∈ (c.call task).2.calls := by
  have hnew : ∀ st,
      j ∈ restage (c.calls ++ [⟨c.nextCall, task, .beforeConnect⟩]) c.nextCall st := by
    intro st
    rw [restage_concat hlk.fresh]
    exact List.mem_append_left _ hj
  cases task with
  | connect => exact hnew .beforeConnect
  | close => exact hnew .beforeClose
  | publish batch again =>
    cases batch with
    | nil => exact hnew (.finished (.ok ()))
    | cons t rest => exact hnew .beforeConnect

/-- No call is under way. -/
def Idle (c : Client) : Prop := ∀ k ∈ c.calls, ∃ r, k.stage = .finished r

/-- What can happen while no call is under way. -/
inductive Lull (c : Client) : Client → Prop where
  | here : Lull c c
  | around {c' c'' : Client} (h : Lull c c') (ha : Around c' c'') : Lull c c''
  | forgets {c' : Client} (h : Lull c c') (k : Call) (r : Except RelayError Unit)
      (hk : k ∈ c'.calls) (hs : k.stage = .finished r) : Lull c (c'.forget k.id)

theorem Lull.reachable (h : Lull c c') (hr : Reachable config c) : Reachable config c' := by
  induction h with
  | here => exact hr
  | around _ ha ih => exact .move ih (.around ha)
  | forgets _ k r hk hs ih => exact .move ih (.forgets k r hk hs)

/-- Meanwhile nothing is dialled or written, and the session is the same but for its queue. -/
theorem Lull.calm (h : Lull c c') : Calm c c' := by
  induction h with
  | here => exact calm_of_same rfl rfl
  | around _ ha ih => exact ih.trans (calm_of_around ha).1
  | forgets _ k r hk hs ih => exact ih.trans (calm_of_same rfl rfl)

end Connecting

/-! ## A call that begins without a session -/

/-- The call connects first. -/
def Task.connects : Task → Bool
  | .connect => true
  | .publish batch again => !batch.isEmpty && !again
  | .close => false

/-- The call has a connection of its own, or sends. -/
def Stage.isPastDialling : Stage → Bool
  | .loggingOn .. | .beforeInstallation _ | .beforeSending | .sending _ | .subscribing .. => true
  | _ => false

/-- Where a call stands that began at `c` without a session and has passed `trace`. -/
structure Onward (c : Client) (trace : List Stage) (c' : Client) (k : Call) : Prop where
  connects : k.stage ≠ .beforeClose ∧ k.stage ≠ .closing
  own : ∀ n, Client.ownConnection? k = some n → c.connections.length ≤ n
  past : k.stage.isPastDialling = true → c.connections.length < c'.connections.length
  result : ∀ r, k.stage = .finished r → .dialling ∈ trace ∧
    (r = .error (.io .refused) ∨ c.connections.length < c'.connections.length)

/-- What the run of such a call keeps. -/
structure Renewing (c : Client) (trace : List Stage) (c' : Client) : Prop where
  /-- Nothing is written on the connections so far. -/
  old : ∀ n < c.connections.length, messages (c'.logAt n) = messages (c.logAt n)
  length : c.connections.length ≤ c'.connections.length
  opened : ∀ n, c.connections.length ≤ n → n < c'.connections.length → messages (c'.logAt n) ≠ []
  session : ∀ n, c'.sessionAt? = some n → c.connections.length ≤ n
  dialled : c.connections.length < c'.connections.length → .dialling ∈ trace

section Renewal

variable {config : RelayConfig} {c c' c'' : Client} {trace : List Stage} {now : Nat} {k : Call}

/-- A step opens a connection when its call dials, and only then. -/
theorem length_of_goes (hg : Goes now k c c') (hs : k.stage ≠ .dialling) :
    c'.connections.length = c.connections.length := by
  have hlogs {c' : Client} (h : c'.logs = c.logs) :
      c'.connections.length = c.connections.length := by
    rw [← Client.length_logs, h, Client.length_logs]
  have hset (n : Nat) (x : Connection) :
      (c.onConnection n fun _ => x).connections.length = c.connections.length :=
    List.length_modify _ _ _
  cases hg with
  | findsLive => exact congrArg List.length (connected_spec c k).2.2.2
  | findsNone => exact hlogs c.dropSession_logs
  | refused hs' => exact absurd hs' hs
  | dials hs' => exact absurd hs' hs
  | hearsBeat n due x x' => exact hset n x'
  | welcomed n due x x' => exact hset n x'
  | failsLogon n due x x' e =>
    rw [← Client.length_logs, failLogon_logs, Client.length_logs]
    exact hset n x'
  | installs n =>
    exact (congrArg List.length (connected_spec _ k).2.2.2).trans (hlogs c.dropSession_logs)
  | trades s t rest id x x' => exact hset _ x'
  | asks s t rest x x' => exact hset _ x'
  | isConfirmed s t rest id due f q x x' => exact hset _ x'
  | failsSending s' e => exact hlogs (failSending_logs _ k e)
  | restarts => exact hlogs c.dropSession_logs
  | closes =>
    rcases logOff_logs c with h | ⟨s, log, -, -, h⟩
    · exact hlogs h
    · change c.logOff.connections.length = _
      rw [← Client.length_logs, h, List.length_set, Client.length_logs]
  | _ => rfl

/-- A call that dials is refused, or it opens a connection and sends the logon. -/
theorem goes_of_dialling (hs : k.stage = .dialling) (hg : Goes now k c c') :
    (c.listening = false ∧ c' = c.failConnect k (.io .refused)) ∨ c' = Client.setStage
      { c with connections := c.connections ++
          [{ Connection.fresh with log := [.wrote (Client.logonRequest c.config)] }] }
      k.id (.loggingOn c.connections.length (c.deadline now)) := by
  cases hg with
  | refused _ hlisten => exact .inl ⟨hlisten, rfl⟩
  | dials => exact .inr rfl
  | failsSending s' e hsend =>
    rw [hs] at hsend
    cases hsend
  | _ =>
    rename k.stage = _ => hother
    rw [hs] at hother
    cases hother

theorem failConnect_spec (c : Client) (k : Call) (e : RelayError) :
    (c.failConnect k e).session = c.session ∧ (c.failConnect k e).connecting = false ∧
      (c.failConnect k e).connections = c.connections ∧
      (c.failConnect k e).calls = restage c.calls k.id (k.failure e) := by
  obtain ⟨hcalls, -, hsession, hconns⟩ :=
    failAttempt_spec ({ c with connecting := false }.leaveDial k.id) k e
  exact ⟨hsession, failAttempt_connecting _ k e, hconns, hcalls⟩

/-- A step opens a connection, with a logon, or it writes on that of the session at most. -/
theorem extends_of_goes (hlk : Locked c) (hk : k ∈ c.calls) (hg : Goes now k c c') :
    (k.stage = .dialling ∧ c'.connections.length = c.connections.length + 1 ∧
      Writes c c' c.connections.length [Client.logonRequest c.config]) ∨
    (c'.connections.length = c.connections.length ∧
      ∃ n new, (c.sessionAt? = some n ∨ new = []) ∧ Writes c c' n new) := by
  by_cases hs : k.stage = .dialling
  · rcases goes_of_dialling hs hg with ⟨-, rfl⟩ | rfl
    · obtain ⟨-, -, hconns, -⟩ := failConnect_spec c k (.io .refused)
      exact .inr ⟨congrArg List.length hconns, 0, [], .inr rfl, .of_logs (logs_congr hconns) 0⟩
    · refine .inl ⟨hs, List.length_append,
        @Writes.of_concat _ _ [.wrote (Client.logonRequest c.config)] ?_⟩
      exact List.map_append
  · refine .inr ⟨length_of_goes hg hs, ?_⟩
    cases pens_of_goes hlk hk hg with
    | nothing h => exact ⟨0, [], .inr rfl, .nothing h 0⟩
    | logon hdial => exact absurd hdial hs
    | frame s m hc hl hm hown h =>
      exact ⟨s.connection, [m], .inl (by rw [Client.sessionAt?, hc]; rfl), h⟩

theorem Run.length_le {id : Nat} (hr : Reachable config c) (h : Run id c trace c') :
    c.connections.length ≤ c'.connections.length := by
  induction h with
  | here => exact Nat.le_refl _
  | goes hrun now k hk hs ih =>
    have hid : k.id = id := by simpa using List.find?_some hk
    subst hid
    rcases extends_of_goes (hrun.reachable hr).locked (List.mem_of_find?_eq_some hk)
      (goes_of_step hs) with ⟨-, hl, -⟩ | ⟨hl, -⟩
    · omega
    · omega
  | around _ ha ih =>
    rw [(calm_of_around ha).1.length]
    exact ih

theorem Renewing.around (h : Renewing c trace c') (ha : Around c' c'') :
    Renewing c trace c'' := by
  obtain ⟨hcalm, -⟩ := calm_of_around ha
  refine ⟨fun n hn => (hcalm.writes n).trans (h.old n hn), hcalm.length ▸ h.length, ?_, ?_, ?_⟩
  · intro n hn hlt
    rw [hcalm.writes]
    exact h.opened n hn (hcalm.length ▸ hlt)
  · rw [(around_spec ha).1]
    exact h.session
  · rw [hcalm.length]
    exact h.dialled

theorem Writes.ne_nil {n m : Nat} {new : List Wire.Message} (h : Writes c c' n new)
    (hm : messages (c.logAt m) ≠ []) : messages (c'.logAt m) ≠ [] := by
  by_cases hmn : m = n
  · rw [hmn, h.here]
    exact List.append_ne_nil_of_left_ne_nil (hmn ▸ hm) _
  · rwa [h.elsewhere m hmn]

/-- The connection that a step opens is new, and so is the one it writes on. -/
theorem Renewing.goes (h : Renewing c trace c') (hlk : Locked c') (hk : k ∈ c'.calls)
    (hown : ∀ n, Client.ownConnection? k = some n → c.connections.length ≤ n)
    (hg : Goes now k c' c'') : Renewing c (trace ++ [k.stage]) c'' := by
  have hsession : ∀ n, c''.sessionAt? = some n → c.connections.length ≤ n := by
    intro n hn
    rcases sessionAt_of_goes hg with hsame | hnone | ⟨m, hs, hm⟩
    · exact h.session n (hsame ▸ hn)
    · rw [hnone] at hn
      cases hn
    · rw [hm] at hn
      cases hn
      exact hown n (by rw [Client.ownConnection?, hs])
  rcases extends_of_goes hlk hk hg with ⟨hs, hlength, hw⟩ | ⟨hlength, n, new, hn, hw⟩
  · refine ⟨fun m hm => ?_, by have := h.length; omega, fun m hm hlt => ?_, hsession,
      fun _ => by simp [hs]⟩
    · rw [hw.elsewhere m (by have := h.length; omega)]
      exact h.old m hm
    · by_cases hlast : m = c'.connections.length
      · rw [hlast, hw.here]
        exact List.append_ne_nil_of_right_ne_nil _ (List.cons_ne_nil _ _)
      · exact hw.ne_nil (h.opened m hm (by omega))
  · refine ⟨fun m hm => ?_, hlength ▸ h.length,
      fun m hm hlt => hw.ne_nil (h.opened m hm (hlength ▸ hlt)), hsession,
      fun hlt => List.mem_append_left _ (h.dialled (hlength ▸ hlt))⟩
    rcases hn with hn | rfl
    · rw [hw.elsewhere m (by have := h.session n hn; omega)]
      exact h.old m hm
    · rw [hw.at_nil m]
      exact h.old m hm

/-- A stage at which the call has yet to dial, or dials, or has failed and will try again. -/
def Stage.isBare : Stage → Bool
  | .beforeConnect | .beforeInspection | .dialling | .beforeTeardown _ | .tearingDown _ => true
  | _ => false

theorem onward_of_isBare (h : k.stage.isBare = true) : Onward c trace c' k := by
  refine ⟨⟨?_, ?_⟩, ?_, ?_, ?_⟩
  · intro hs
    rw [hs] at h
    cases h
  · intro hs
    rw [hs] at h
    cases h
  · intro n hn
    unfold Client.ownConnection? at hn
    split at hn <;> first | (rename_i hs; rw [hs] at h; cases h) | cases hn
  · intro hp
    cases hs : k.stage <;> simp [hs, Stage.isBare, Stage.isPastDialling] at h hp
  · intro r hs
    rw [hs] at h
    cases h

/-- A stage at which the call sends. -/
theorem onward_of_isSending (hlt : c.connections.length < c'.connections.length)
    (h : k.stage.isSending = true) : Onward c trace c' k := by
  refine ⟨⟨?_, ?_⟩, ?_, fun _ => hlt, ?_⟩
  · intro hs
    rw [hs] at h
    cases h
  · intro hs
    rw [hs] at h
    cases h
  · intro n hn
    unfold Client.ownConnection? at hn
    split at hn <;> first | (rename_i hs; rw [hs] at h; cases h) | cases hn
  · intro r hs
    rw [hs] at h
    cases h

theorem onward_of_own {n : Nat} (hn : c.connections.length ≤ n) (hlt : n < c'.connections.length)
    (h : (∃ due, k.stage = .loggingOn n due) ∨ k.stage = .beforeInstallation n) :
    Onward c trace c' k := by
  have hown : ∀ m, Client.ownConnection? k = some m → c.connections.length ≤ m := by
    intro m hm
    rcases h with ⟨due, hs⟩ | hs
    all_goals
      rw [Client.ownConnection?, hs] at hm
      cases hm
      exact hn
  rcases h with ⟨due, hs⟩ | hs
  all_goals exact ⟨by simp [hs], hown, fun _ => Nat.lt_of_le_of_lt hn hlt, by simp [hs]⟩

theorem onward_of_finished {r : Except RelayError Unit} (hs : k.stage = .finished r)
    (hd : .dialling ∈ trace)
    (hr : r = .error (.io .refused) ∨ c.connections.length < c'.connections.length) :
    Onward c trace c' k := by
  refine ⟨by rw [hs]; exact ⟨nofun, nofun⟩, ?_, by rw [hs]; nofun, ?_⟩
  · intro n hn
    rw [Client.ownConnection?, hs] at hn
    cases hn
  · intro r' hs'
    rw [hs] at hs'
    cases hs'
    exact ⟨hd, hr⟩

theorem onward_failure {e : RelayError} (hd : .dialling ∈ trace)
    (he : e = .io .refused ∨ c.connections.length < c'.connections.length) :
    Onward c trace c' { k with stage := k.failure e } := by
  cases hr : k.retries e with
  | true => exact onward_of_isBare (by simp only [Call.failure, hr]; rfl)
  | false =>
    exact onward_of_finished (r := .error e) (by simp only [Call.failure, hr]; rfl) hd
      (he.imp_left fun he => by rw [he])

theorem onward_readiness (hd : .dialling ∈ trace)
    (hlt : c.connections.length < c'.connections.length) :
    Onward c trace c' { k with stage := k.readiness } := by
  unfold Call.readiness
  split
  · exact onward_of_isSending hlt rfl
  · exact onward_of_finished rfl hd (.inr hlt)

/-- A step brings the call to another such stage. -/
theorem Onward.goes (hw : Wired config c') (h : Renewing c trace c')
    (ho : Onward c trace c' k) (hk : c'.calls.find? (·.id = k.id) = some k)
    (hg : Goes now k c' c'') (h' : Renewing c (trace ++ [k.stage]) c'') :
    ∃ k', c''.calls.find? (·.id = k.id) = some k' ∧ Onward c (trace ++ [k.stage]) c'' k' := by
  have hmem := List.mem_of_find?_eq_some hk
  have hsame : k.stage ≠ .dialling → k.stage.isPastDialling = true →
      c.connections.length < c''.connections.length := by
    intro hs hp
    rw [length_of_goes hg hs]
    exact ho.past hp
  cases hg with
  | enters => exact ⟨_, find?_restage hk _, onward_of_isBare rfl⟩
  | findsLive s hs hl hc =>
    obtain ⟨hcalls, -, -, hconns⟩ := connected_spec c' k
    obtain ⟨log, hlog, -⟩ := hw.inStep s hc
    have hfrom : c.connections.length ≤ s.connection :=
      h.session s.connection (by rw [Client.sessionAt?, hc]; rfl)
    have hto : s.connection < c'.connections.length := by
      rw [← c'.length_logs]
      exact (List.getElem?_eq_some_iff.1 hlog).1
    have hlt : c.connections.length < (c'.connected k).connections.length := by
      rw [hconns]
      omega
    exact ⟨_, hcalls ▸ find?_restage hk _, onward_readiness (h'.dialled hlt) hlt⟩
  | findsNone =>
    obtain ⟨xs, hd⟩ := c'.dropSession_spec
    rw [hd]
    exact ⟨_, find?_restage hk _, onward_of_isBare rfl⟩
  | refused hs =>
    refine ⟨{ k with stage := k.failure (.io .refused) }, ?_,
      onward_failure (by simp [hs]) (.inl rfl)⟩
    rw [Client.failConnect, (failAttempt_spec _ k _).1]
    exact find?_restage hk _
  | dials hs =>
    exact ⟨_, find?_restage hk _, onward_of_own h.length (by simp [Client.setStage])
      (.inl ⟨_, rfl⟩)⟩
  | hearsBeat n due x x' f d hs hx =>
    have hlt : n < c'.connections.length := (List.getElem?_eq_some_iff.1 hx).1
    refine ⟨k, hk, onward_of_own (ho.own n (by rw [Client.ownConnection?, hs])) ?_
      (.inl ⟨due, hs⟩)⟩
    simpa [Client.onConnection] using hlt
  | welcomed n due x x' f v text hs hx =>
    have hlt : n < c'.connections.length := (List.getElem?_eq_some_iff.1 hx).1
    refine ⟨_, find?_restage hk _, onward_of_own (ho.own n (by rw [Client.ownConnection?, hs])) ?_
      (.inr rfl)⟩
    simpa [Client.onConnection, Client.joinSession, Client.setStage] using hlt
  | failsLogon n due x x' e hs =>
    have hlt := hsame (by simp [hs]) (by rw [hs]; rfl)
    refine ⟨{ k with stage := k.failure e }, ?_, onward_failure (h'.dialled hlt) (.inr hlt)⟩
    rw [failLogon_calls]
    exact find?_restage hk _
  | installs n hs =>
    have hlt := hsame (by simp [hs]) (by rw [hs]; rfl)
    obtain ⟨hcalls, -⟩ := connected_spec { c'.dropSession with session := some (.start n) } k
    refine ⟨{ k with stage := k.readiness }, ?_, onward_readiness (h'.dialled hlt) hlt⟩
    obtain ⟨xs, hd⟩ := c'.dropSession_spec
    rw [hcalls, hd]
    exact find?_restage hk _
  | begins s b a hs =>
    exact ⟨_, find?_restage hk _,
      onward_of_isSending (hsame (by simp [hs]) (by rw [hs]; rfl)) rfl⟩
  | completes s hs =>
    have hlt := hsame (by simp [hs]) (by rw [hs]; rfl)
    exact ⟨_, find?_restage hk _, onward_of_finished rfl (h'.dialled hlt) (.inr hlt)⟩
  | trades s t rest id x x' hs =>
    exact ⟨_, find?_restage hk _,
      onward_of_isSending (hsame (by simp [hs]) (by rw [hs]; rfl)) rfl⟩
  | asks s t rest x x' hs =>
    exact ⟨_, find?_restage hk _,
      onward_of_isSending (hsame (by simp [hs]) (by rw [hs]; rfl)) rfl⟩
  | isConfirmed s t rest id due f q x x' hs =>
    exact ⟨_, find?_restage hk _,
      onward_of_isSending (hsame (by simp [hs]) (by rw [hs]; rfl)) rfl⟩
  | isRejected s t rest id due f q reason hs =>
    have hlt := hsame (by simp [hs]) (by rw [hs]; rfl)
    exact ⟨_, find?_restage hk _, onward_of_finished rfl (h'.dialled hlt) (.inr hlt)⟩
  | failsSending s' e hs =>
    have hpast : k.stage.isPastDialling = true := by
      cases hst : k.stage <;> rw [hst] at hs <;> first | rfl | cases hs
    have hlt := hsame (fun hdial => by rw [hdial] at hs; cases hs) hpast
    refine ⟨{ k with stage := k.failure e }, ?_, onward_failure (h'.dialled hlt) (.inr hlt)⟩
    rw [failSending_calls]
    exact find?_restage hk _
  | retires => exact ⟨_, find?_restage hk _, onward_of_isBare rfl⟩
  | restarts e task =>
    obtain ⟨xs, hd⟩ := c'.dropSession_spec
    rw [hd]
    exact ⟨_, find?_restage (find?_retask hk task) _, onward_of_isBare rfl⟩
  | prepares hs => exact absurd hs ho.connects.1
  | closes hs => exact absurd hs ho.connects.2

/-- What comes of a call that connects when there is no session: a connection of its own. -/
structure Redials (config : RelayConfig) (id : Nat) (c : Client) (trace : List Stage)
    (c' : Client) : Prop where
  /-- It has no result before it has dialled. Unless the server refuses, this opens a connection. -/
  dials : ∀ r, c'.result? id = some r → .dialling ∈ trace ∧
    (r = .error (.io .refused) ∨ c.connections.length < c'.connections.length)
  /-- A new connection begins with the logon, and its requests count from one. -/
  afresh : ∀ n, c.connections.length ≤ n → n < c'.connections.length →
    (∃ rest, messages (c'.logAt n) = Client.logonRequest config :: rest) ∧
      (subscriptions (c'.logAt n)).map Prod.snd =
        (List.range (subscriptions (c'.logAt n)).length).map fun i => UInt32.ofNat (i + 1)
  /-- The session is on a new connection, and goes on counting there. -/
  session : ∀ s, c'.session = some s → c.connections.length ≤ s.connection ∧
    s.nextId = UInt32.ofNat ((subscriptions (c'.logAt s.connection)).length + 1)
  /-- Nothing more is written on the others. -/
  old : ∀ n < c.connections.length, messages (c'.logAt n) = messages (c.logAt n)

theorem Run.renewing {id : Nat} {k₀ : Call} (hr : Reachable config c) (hnone : c.session = none)
    (h₀ : c.calls.find? (·.id = id) = some k₀) (hs₀ : k₀.stage = .beforeConnect)
    (h : Run id c trace c') : Renewing c trace c' ∧
      ∃ k, c'.calls.find? (·.id = id) = some k ∧ Onward c trace c' k := by
  induction h with
  | here =>
    refine ⟨⟨fun _ _ => rfl, Nat.le_refl _, fun n hn hlt => by omega, ?_,
      fun hlt => (Nat.lt_irrefl _ hlt).elim⟩, k₀, h₀, onward_of_isBare (by rw [hs₀]; rfl)⟩
    simp [Client.sessionAt?, hnone]
  | @goes trace c' c'' hrun now k hk hs ih =>
    obtain ⟨hrenew, k', hk', honward⟩ := ih
    rw [hk] at hk'
    cases hk'
    have hid : k.id = id := by simpa using List.find?_some hk
    subst hid
    have hreach := hrun.reachable hr
    have hg := goes_of_step hs
    have hrenew' := hrenew.goes hreach.locked (List.mem_of_find?_eq_some hk) honward.own hg
    exact ⟨hrenew', honward.goes hreach.wired hrenew hk hg hrenew'⟩
  | around _ ha ih =>
    obtain ⟨hrenew, k, hk, honward⟩ := ih
    obtain ⟨hcalm, hcalls⟩ := calm_of_around ha
    refine ⟨hrenew.around ha, k, hcalls ▸ hk, honward.connects, honward.own, ?_, ?_⟩
    · rw [hcalm.length]
      exact honward.past
    · rw [hcalm.length]
      exact honward.result

theorem call_connects (hlk : Locked c) {task : Task} (ht : task.connects = true) :
    (c.call task).2.calls.find? (·.id = c.nextCall) =
      some ⟨c.nextCall, task, .beforeConnect⟩ := by
  have hcalls : (c.call task).2.calls = c.calls ++ [⟨c.nextCall, task, .beforeConnect⟩] := by
    cases task with
    | connect => exact restage_concat hlk.fresh _ _ _
    | publish batch again =>
      cases batch with
      | nil => cases ht
      | cons t rest => exact restage_concat hlk.fresh _ _ _
    | close => cases ht
  rw [hcalls, List.find?_append, List.find?_eq_none.2]
  · simp
  · intro j hj
    have hlt := hlk.fresh j hj
    simp only [decide_eq_true_eq]
    omega

/-- A call that connects when there is no session dials a connection of its own. -/
theorem Run.redials {task : Task} (hr : Reachable config c) (hnone : c.session = none)
    (ht : task.connects = true) (h : Run c.nextCall (c.call task).2 trace c') :
    Redials config c.nextCall (c.call task).2 trace c' := by
  have hr₁ : Reachable config (c.call task).2 := by
    refine .move hr (.calls task ?_)
    rintro batch rfl
    simp [Task.connects] at ht
  obtain ⟨hrenew, k, hk, honward⟩ := h.renewing hr₁ ((call_spec c task).2.1.trans hnone)
    (call_connects hr.locked ht) rfl
  have hwired := (h.reachable hr₁).wired
  refine ⟨fun r hres => honward.result r (stage_of_result hk hres), ?_, ?_, hrenew.old⟩
  · intro n hn hlt
    have horderly := hwired.orderly_logAt n
    refine ⟨?_, horderly.numbered⟩
    obtain ⟨m, rest, hm⟩ := List.exists_cons_of_ne_nil (hrenew.opened n hn hlt)
    rw [(horderly.logon m rest hm).1] at hm
    exact ⟨rest, hm⟩
  · intro s hs
    obtain ⟨log, hlog, hin⟩ := hwired.inStep s hs
    refine ⟨hrenew.session s.connection (by rw [Client.sessionAt?, hs]; rfl), ?_⟩
    rw [Client.logAt, hlog]
    exact hin.nextId

end Renewal
end Relay
end MarketFeed
