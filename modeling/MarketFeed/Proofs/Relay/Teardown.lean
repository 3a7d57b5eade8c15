import MarketFeed.Proofs.Relay.Unmixed
import MarketFeed.Proofs.Tasks.History

/-!
# MarketFeed.Proofs.Relay.Teardown

What a call drops before its second attempt.

* `Passes` — what happens between two moments, with the calls that go on meanwhile.
* `Passes.installed` — a session where there was none has been installed by one of them.
* `Teardown` — from the failure of a call's first attempt to the step that drops the session.
* `teardown_removes` — the session of the attempt is gone at once, so what that step drops is the
  session of another call, if any; but in turn no call is about to send on it then.
-/

namespace MarketFeed
namespace Relay

/-! ## Between two moments -/

/-- What can happen to a client besides a step of a call. -/
inductive Besides (inTurn : Bool) (c : Client) : Client → Prop where
  | around {c' : Client} (ha : Around c c') : Besides inTurn c c'
  | calls (task : Task) (ht : ∀ batch, task ≠ .publish batch true) :
      Besides inTurn c (c.call task).2
  | forgets (k : Call) (r : Except RelayError Unit) (hk : k ∈ c.calls)
      (hs : k.stage = .finished r) : Besides inTurn c (c.forget k.id)
  | givesUp (k : Call) (hk : c.calls.find? (·.id = k.id) = some k)
      (hs : k.stage.ownsSession = false) : Besides inTurn c (c.abandon k.id)
  | reorders {c' : Client} (hany : inTurn = false) (hr : Reorders c c') : Besides inTurn c c'

/-- What happens between two moments; the list has the calls that go on, each as it stands then. -/
inductive Passes (inTurn : Bool) (c : Client) : List Call → Client → Prop where
  | here : Passes inTurn c [] c
  | goes {trace : List Call} {c' c'' : Client} (h : Passes inTurn c trace c') (now : Nat) (k : Call)
      (hk : c'.calls.find? (·.id = k.id) = some k) (hs : c'.step now k = some c'') :
      Passes inTurn c (trace ++ [k]) c''
  | besides {trace : List Call} {c' c'' : Client} (h : Passes inTurn c trace c')
      (hb : Besides inTurn c' c'') : Passes inTurn c trace c''

section Passing

variable {config : RelayConfig} {inTurn : Bool} {story : List Entry} {c c' : Client}
  {trace : List Call} {now : Nat} {k : Call}

theorem Told.passes (h : Told config inTurn story c) (hp : Passes inTurn c trace c') :
    ∃ story', Told config inTurn story' c' := by
  induction hp with
  | here => exact ⟨story, h⟩
  | goes _ now k hk hs ih =>
    obtain ⟨story', h'⟩ := ih
    exact ⟨_, .goes h' now k hk hs⟩
  | besides _ hb ih =>
    obtain ⟨story', h'⟩ := ih
    cases hb with
    | around ha => exact ⟨_, .around h' ha⟩
    | calls task ht => exact ⟨_, .calls h' task ht⟩
    | forgets k r hk hs => exact ⟨_, .forgets h' k r hk hs⟩
    | givesUp k hk hs => exact ⟨_, .givesUp h' k hk hs⟩
    | reorders hany hr => exact ⟨_, .reorders h' hany hr⟩

/-- A step leaves the session on its connection, or drops it, or installs one. -/
theorem sessionAt_of_goes (hg : Goes now k c c') : c'.sessionAt? = c.sessionAt? ∨
    c'.sessionAt? = none ∨ ∃ n, k.stage = .beforeInstallation n ∧ c'.sessionAt? = some n := by
  have hnone {c' : Client} (h : c'.session = none) : c'.sessionAt? = none := by
    rw [Client.sessionAt?, h, Option.map_none]
  have htrim {s : Option Session} (h : Trimmed c.session s) :
      s.map Session.connection = c.sessionAt? := by
    rw [Client.sessionAt?]
    cases hs : c.session with
    | none =>
      rw [hs] at h
      cases s with
      | none => rfl
      | some s => exact h.elim
    | some s₀ =>
      rw [hs] at h
      cases s with
      | none => exact h.elim
      | some s => exact congrArg some h.1
  cases hg with
  | findsLive => exact .inl (sessionAt_congr (connected_spec c k).2.2.1)
  | findsNone => exact .inr (.inl (hnone c.dropSession_session))
  | refused => exact .inl (sessionAt_congr (failAttempt_spec _ k _).2.2.1)
  | failsLogon n due x x' e => exact .inl (sessionAt_congr (failAttempt_spec _ k e).2.2.1)
  | installs n hs =>
    refine .inr (.inr ⟨n, hs, ?_⟩)
    rw [Client.sessionAt?, (connected_spec _ k).2.2.1]
    rfl
  | asks s t rest x x' hs hc =>
    refine .inl ?_
    rw [Client.sessionAt?, Client.sessionAt?, hc]
    rfl
  | isConfirmed s t rest id due f q x x' hs hc =>
    refine .inl ?_
    rw [Client.sessionAt?, Client.sessionAt?, hc]
    rfl
  | isRejected s t rest id due f q reason hs hc =>
    refine .inl ?_
    rw [Client.sessionAt?, Client.sessionAt?, hc]
    rfl
  | failsSending s' e hs hl hc =>
    by_cases hdrop : (e.isConnectionError || e.isProtocolViolation) = true
    · refine .inr (.inl (hnone ?_))
      rw [Client.failSending, if_pos hdrop]
      exact (failAttempt_spec _ k e).2.2.1.trans (Client.dropSession_session _)
    · refine .inl ((congrArg (Option.map Session.connection) ?_).trans (htrim hc))
      rw [Client.failSending, if_neg hdrop]
      exact (failAttempt_spec _ k e).2.2.1
  | restarts => exact .inr (.inl (hnone c.dropSession_session))
  | closes =>
    obtain ⟨xs, hd⟩ := c.logOff_spec
    refine .inr (.inl (hnone ?_))
    rw [hd]
    rfl
  | _ => exact .inl rfl

theorem sessionAt_of_besides (hb : Besides inTurn c c') : c'.sessionAt? = c.sessionAt? := by
  cases hb with
  | around ha => exact (around_spec ha).1
  | calls task => exact sessionAt_congr (call_spec c task).2.1
  | forgets => rfl
  | givesUp k hk => exact sessionAt_congr (abandon_spec hk).2.1
  | reorders _ hr => cases hr <;> rfl

/-- If there was no session, the one that is there now has been installed since. -/
theorem Passes.installed (h : Passes inTurn c trace c') (hnone : c.sessionAt? = none) {n : Nat}
    (hn : c'.sessionAt? = some n) : ∃ j ∈ trace, j.stage = .beforeInstallation n := by
  induction h with
  | here =>
    rw [hnone] at hn
    cases hn
  | goes _ now k hk hs ih =>
    rcases sessionAt_of_goes (goes_of_step hs) with hat | hat | ⟨m, hst, hat⟩ <;> rw [hat] at hn
    · obtain ⟨j, hj, hst⟩ := ih hn
      exact ⟨j, List.mem_append_left _ hj, hst⟩
    · cases hn
    · cases hn
      exact ⟨k, List.mem_append_right _ (.head _), hst⟩
  | besides _ hb ih =>
    rw [sessionAt_of_besides hb] at hn
    exact ih hn

end Passing

/-! ## The second attempt -/

/-- The first attempt of a call fails, and after what passes until then the call drops the session
for its second attempt. -/
structure Teardown (config : RelayConfig) (inTurn : Bool) (story : List Entry) (k : Call)
    (c₀ c₁ : Client) (trace : List Call) (c₂ c₃ : Client) : Prop where
  told : Told config inTurn story c₀
  fails : ∃ now, c₀.calls.find? (·.id = k.id) = some k ∧ c₀.step now k = some c₁
  first : k.stage.tearsDown = false
  failed : ∃ j ∈ c₁.calls, j.id = k.id ∧ ∃ e, j.stage = .beforeTeardown e
  passes : Passes inTurn c₁ trace c₂
  /-- The call itself does no more than take the dialling lock. -/
  waits : ∀ j ∈ trace, j.id = k.id → ∃ e, j.stage = .beforeTeardown e
  tears : ∃ now j e, c₂.calls.find? (·.id = k.id) = some j ∧ j.stage = .tearingDown e ∧
    c₂.step now j = some c₃

section Teardowns

variable {config : RelayConfig} {inTurn : Bool} {story : List Entry} {c c' : Client} {now : Nat}
  {k : Call}

theorem openAt_dropSession_of_ne {n : Nat} (h : c.sessionAt? ≠ some n) :
    c.dropSession.openAt n = c.openAt n := by
  unfold Client.dropSession
  split
  · rename_i s hs
    have hne : s.connection ≠ n := fun heq => h (by rw [Client.sessionAt?, hs, ← heq]; rfl)
    simp only [Client.openAt, Client.onConnection, List.getElem?_modify, hne, if_false, id_map']
  · rfl

theorem openAt_dropSession_self {n : Nat} (h : c.sessionAt? = some n) :
    c.dropSession.openAt n = false := by
  obtain ⟨s, hs, hn⟩ := Option.map_eq_some_iff.1 h
  cases hopen : c.dropSession.openAt n with
  | false => rfl
  | true => exact absurd hn ((openAt_dropSession hopen).2 s hs)

/-- When the first attempt of a call has failed there is no session left, and that on which it was
sent is closed. -/
theorem session_of_failed (hlk : Locked c) (hw : Wired config c) (hk : k ∈ c.calls)
    (hg : Goes now k c c') (hfirst : k.stage.tearsDown = false) {j : Call} (hj : j ∈ c'.calls)
    (hid : j.id = k.id) {e : RelayError} (hst : j.stage = .beforeTeardown e) :
    c'.session = none ∧ ∀ n, c.sessionAt? = some n → c'.openAt n = false := by
  have hself (st : Stage) (hcalls : c'.calls = restage c.calls k.id st) :
      st = .beforeTeardown e := by
    rw [hcalls] at hj
    rw [eq_of_mem_restage hlk hk hj hid] at hst
    exact hst
  have hready (hcalls : c'.calls = restage c.calls k.id k.readiness) : False := by
    have hbad := hself _ hcalls
    unfold Call.readiness at hbad
    split at hbad <;> cases hbad
  have hgone (hsession : c.session = none) (hsame : c'.session = c.session) :
      c'.session = none ∧ ∀ n, c.sessionAt? = some n → c'.openAt n = false := by
    refine ⟨hsame.trans hsession, fun n hn => ?_⟩
    rw [Client.sessionAt?, hsession] at hn
    cases hn
  cases hg with
  | enters => cases hself .beforeInspection rfl
  | findsLive => exact (hready (connected_spec c k).1).elim
  | findsNone =>
    obtain ⟨xs, hd⟩ := c.dropSession_spec
    cases hself .dialling (by rw [hd]; rfl)
  | refused hs => exact hgone (session_of_dials hw hk hs) (failAttempt_spec _ k _).2.2.1
  | dials => cases hself (.loggingOn c.connections.length (c.deadline now)) rfl
  | hearsBeat n due x x' f d hs =>
    rw [eq_of_id_eq hlk.nodup hj hk hid, hs] at hst
    cases hst
  | welcomed n => cases hself (.beforeInstallation n) rfl
  | failsLogon n due x x' e' hs =>
    exact hgone (own_spec hw hk (by rw [Client.ownConnection?, hs])).2
      (failAttempt_spec _ k e').2.2.1
  | installs n =>
    obtain ⟨xs, hd⟩ := c.dropSession_spec
    exact (hready ((connected_spec _ k).1.trans (by rw [hd]))).elim
  | begins s batch => cases hself (.sending batch) rfl
  | completes => cases hself (.finished (.ok ())) rfl
  | trades s t rest => cases hself (.sending rest) rfl
  | asks s t rest => cases hself (.subscribing t rest s.nextId (c.deadline now)) rfl
  | isConfirmed s t rest => cases hself (.sending rest) rfl
  | isRejected s t rest id due f q reason =>
    cases hself (.finished (.error (.subscriptionRejected t.symbol t.exchange reason))) rfl
  | failsSending s' e' hs hl hc he =>
    -- the call tries again, so the connection is to blame and the session goes
    have hconn : e'.isConnectionError = true := by
      have hstage := hself _ (failSending_calls _ k e')
      unfold Call.failure at hstage
      split at hstage
      · rename_i hr
        obtain ⟨batch, ht⟩ := retries_spec hr
        rwa [Call.retries, ht] at hr
      · cases hstage
    rw [hw.drops hc (.inl hconn)]
    obtain ⟨-, -, hsession, hconns⟩ := failAttempt_spec (c.dropSession.leaveSession k.id) k e'
    refine ⟨hsession.trans c.dropSession_session, fun n hn => ?_⟩
    rw [openAt_congr hconns]
    exact openAt_dropSession_self hn
  | retires e' hs =>
    rw [hs] at hfirst
    cases hfirst
  | restarts e' task hs =>
    rw [hs] at hfirst
    cases hfirst
  | prepares => cases hself .closing rfl
  | closes =>
    obtain ⟨xs, hd⟩ := c.logOff_spec
    cases hself (.finished (.ok ())) (by rw [hd]; rfl)

/-- Who drops the session for a second attempt in turn is the last to wait for it. -/
theorem sends_of_tearingDown (hlk : Locked c) (hqueued : Queued c k) (hk : k ∈ c.calls)
    {e : RelayError} (hst : k.stage = .tearingDown e) (hl : c.sessionLock.heldBy k.id = true)
    {j : Call} (hj : j ∈ c.calls) : j.stage.isSending = false := by
  rw [Queued, hst] at hqueued
  have halone := queue_of_ends hlk.session.nodup hl hqueued
  cases hsend : j.stage.isSending with
  | false => rfl
  | true =>
    have hin : j.stage.inSession = true := by
      cases hjs : j.stage <;> rw [hjs] at hsend <;> first | rfl | cases hsend
    have hmem := (hlk.session.mem_iff j.id).2 ⟨j, hj, rfl, hin⟩
    rw [halone, List.mem_singleton] at hmem
    rw [eq_of_id_eq hlk.nodup hj hk hmem, hst] at hsend
    cases hsend

/-- When the first attempt of a call has failed there is no session. So if there is one to drop
before the second attempt, another call has installed it meanwhile. It is the only one that is
closed; in turn no other call is about to send on it. -/
theorem teardown_removes {c₀ c₁ c₂ c₃ : Client} {trace : List Call}
    (h : Teardown config inTurn story k c₀ c₁ trace c₂ c₃) :
    c₁.session = none ∧ (∀ n, c₀.sessionAt? = some n → c₁.openAt n = false) ∧
      (∀ n, c₂.sessionAt? = some n →
        ∃ j ∈ trace, j.id ≠ k.id ∧ j.stage = .beforeInstallation n) ∧
      c₃.session = none ∧
      (∀ n, c₂.openAt n = true → (c₃.openAt n = false ↔ c₂.sessionAt? = some n)) ∧
      (inTurn = true → ∀ j ∈ c₂.calls, j.stage.isSending = false) := by
  obtain ⟨now, hk, hs⟩ := h.fails
  obtain ⟨i, hi, hid, e, hst⟩ := h.failed
  obtain ⟨now', j, e', hj, hjs, hs'⟩ := h.tears
  obtain ⟨hlk, hw⟩ := h.told.kept
  obtain ⟨hnone, hclosed⟩ := session_of_failed hlk hw (List.mem_of_find?_eq_some hk)
    (goes_of_step hs) h.first hi hid hst
  obtain ⟨story', htold⟩ := (h.told.goes now k hk hs).passes h.passes
  have hjmem := List.mem_of_find?_eq_some hj
  have hjid : j.id = k.id := by simpa using List.find?_some hj
  obtain ⟨hl, hc₃, hopen⟩ : c₂.sessionLock.heldBy j.id = true ∧ c₃.session = none ∧
      ∀ n, c₃.openAt n = c₂.dropSession.openAt n := by
    simp only [Client.step, hjs] at hs'
    split at hs'
    · rename_i hl
      cases hs'
      exact ⟨hl, c₂.dropSession_session, fun _ => rfl⟩
    · cases hs'
  refine ⟨hnone, hclosed, fun n hn => ?_, hc₃, fun n hn => ?_, fun ht i hi => ?_⟩
  · obtain ⟨i, hi, his⟩ :=
      h.passes.installed (by rw [Client.sessionAt?, hnone, Option.map_none]) hn
    refine ⟨i, hi, fun hik => ?_, his⟩
    obtain ⟨e, hwait⟩ := h.waits i hi hik
    rw [his] at hwait
    cases hwait
  · rw [hopen]
    constructor
    · intro hshut
      by_contra hne
      rw [openAt_dropSession_of_ne hne, hn] at hshut
      cases hshut
    · exact openAt_dropSession_self
  · subst ht
    exact sends_of_tearingDown htold.kept.1 (htold.queued j hjmem) hjmem hjs hl hi

end Teardowns

/-! ## Two batches whose connection breaks -/

/-- The calls that go on in a history of a network, each as it stands then. -/
def went (h : List (Incident Network Network.Actor)) : List Call :=
  h.filterMap fun x =>
    match x.event with
    | .client (.call id) => x.before.client.calls.find? (·.id = id)
    | _ => none

theorem passes_of_history {w w' : Network} {now : Nat} {h : List (Incident Network Network.Actor)}
    (hist : History (Network.system.step now) w h w') :
    Passes true w.client (went h) w'.client := by
  induction hist with
  | nil => exact .here
  | @snoc h w' w'' a _ he ih =>
    rw [went, filterMap_concat]
    cases a with
    | client a =>
      cases a with
      | call id =>
        obtain ⟨k, rfl, hk, hgo⟩ := call_of_step he
        simp only [hk, Option.toList_some]
        exact .goes ih now k hk hgo
      | reader =>
        obtain ⟨c, hc, rfl⟩ := Option.map_eq_some_iff.1 he
        rw [Option.toList_none, List.append_nil]
        exact .besides ih (.around (.reads hc))
    | peer n =>
      rw [Option.toList_none, List.append_nil]
      exact .besides ih (.around (around_of_stepPeer he))

namespace Race

def first : Network.Actor := .client (.call 0)

def second : Network.Actor := .client (.call 1)

def reader : Network.Actor := .client .reader

def start : Network :=
  let batch : List Tick := [⟨"CME", "ESZ4", "t", .epoch, .zero, .zero, none, []⟩]
  let s := (Scenario.new .default [⟨none, [[.close]], []⟩, .silent]).start (.publish batch false)
  (s.2.start (.publish batch false)).2.timed.world

/-- The first call logs on and asks for its listing, and the peer closes. -/
def breaking : List Network.Actor :=
  [first, first, first, .peer 0, .peer 0, first, first, second, first, first, .peer 0, .peer 0,
    reader]

/-- The second call dials, logs on, sends its batch and is done. -/
def meanwhile : List Network.Actor :=
  [second, second, .peer 1, .peer 1, second, second, first, second, second, .peer 1, .peer 1,
    reader, second, second]

/-- The client before and after the first call fails, the calls that go on until it drops the
session, and the client before and after that. -/
def course : Option (Client × Client × List Call × Client × Client) :=
  (History.replay (Network.system.step 0) breaking start).bind fun r₁ =>
    (Network.system.step 0 first r₁.2).bind fun w₁ =>
      (History.replay (Network.system.step 0) meanwhile w₁).bind fun r₂ =>
        (Network.system.step 0 first r₂.2).map fun w₃ =>
          (r₁.2.client, w₁.client, went r₂.1, r₂.2.client, w₃.client)

def isBeforeTeardown : Stage → Bool
  | .beforeTeardown _ => true
  | _ => false

def isTearingDown : Stage → Bool
  | .tearingDown _ => true
  | _ => false

theorem course_spec : course.any (fun (c₀, c₁, trace, c₂, c₃) =>
    (c₀.calls.find? (·.id = 0)).any (fun k => !k.stage.tearsDown) &&
    c₁.calls.any (fun j => j.id = 0 && isBeforeTeardown j.stage) &&
    trace.all (fun j => j.id ≠ 0 || isBeforeTeardown j.stage) &&
    (c₂.calls.find? (·.id = 0)).any (fun j => isTearingDown j.stage) &&
    c₀.sessionAt? = some 0 && c₂.session.any Session.alive && c₂.sessionAt? = some 1 &&
    c₂.openAt 1 && !c₃.openAt 1) = true := by
  decide +kernel

theorem isBeforeTeardown_spec {st : Stage} (h : isBeforeTeardown st = true) :
    ∃ e, st = .beforeTeardown e := by
  cases st with
  | beforeTeardown e => exact ⟨e, rfl⟩
  | _ => cases h

theorem isTearingDown_spec {st : Stage} (h : isTearingDown st = true) :
    ∃ e, st = .tearingDown e := by
  cases st with
  | tearingDown e => exact ⟨e, rfl⟩
  | _ => cases h

/-- The first call drops the session of the second one. -/
theorem torn : ∃ story k c₀ c₁ trace c₂ c₃, Teardown .default true story k c₀ c₁ trace c₂ c₃ ∧
    c₀.sessionAt? = some 0 ∧ c₂.session.any Session.alive = true ∧ c₂.sessionAt? = some 1 ∧
    c₂.openAt 1 = true ∧ c₃.openAt 1 = false := by
  obtain ⟨⟨c₀, c₁, trace, c₂, c₃⟩, hcourse, hspec⟩ := (Option.any_eq_true _ _).1 course_spec
  simp only [Bool.and_eq_true, decide_eq_true_eq, Bool.not_eq_true'] at hspec
  obtain ⟨⟨⟨⟨⟨⟨⟨⟨hfirst, hfailed⟩, hwaits⟩, htears⟩, hold⟩, halive⟩, hnew⟩, hopen⟩, hshut⟩ := hspec
  -- the parts of the course
  obtain ⟨⟨h₁, w₀⟩, hr₁, hcourse⟩ := Option.bind_eq_some_iff.1 hcourse
  obtain ⟨w₁, hs₁, hcourse⟩ := Option.bind_eq_some_iff.1 hcourse
  obtain ⟨⟨h₂, w₂⟩, hr₂, hcourse⟩ := Option.bind_eq_some_iff.1 hcourse
  obtain ⟨w₃, hs₃, hcourse⟩ := Option.map_eq_some_iff.1 hcourse
  cases hcourse
  have hclient : Reachable .default (Scenario.new .default [⟨none, [[.close]], []⟩,
      .silent]).timed.world.client := .new
  have hstart : Reachable .default start.client :=
    reachable_start (reachable_start hclient (by intro b h; cases h)) (by intro b h; cases h)
  obtain ⟨_, htold⟩ := hstart.told
  obtain ⟨story, htold⟩ := htold.passes (passes_of_history (History.of_replay hr₁))
  obtain ⟨k, hid, hk, hgo⟩ := call_of_step hs₁
  obtain ⟨j, -, hj, hgo'⟩ := call_of_step hs₃
  refine ⟨story, k, _, _, _, _, _, ⟨htold, ⟨0, hid ▸ hk, hgo⟩, ?_, ?_,
    passes_of_history (History.of_replay hr₂), ?_, ?_⟩, hold, halive, hnew, hopen, hshut⟩
  · rw [hk, Option.any_some] at hfirst
    exact Bool.not_eq_true' _ ▸ hfirst
  · obtain ⟨i, hi, hstage⟩ := List.any_eq_true.1 hfailed
    rw [Bool.and_eq_true, decide_eq_true_eq] at hstage
    exact ⟨i, hi, hstage.1.trans hid.symm, isBeforeTeardown_spec hstage.2⟩
  · intro i hi hik
    have hstage := List.all_eq_true.1 hwaits i hi
    rw [hik, hid, decide_eq_false (fun h => h rfl), Bool.false_or] at hstage
    exact isBeforeTeardown_spec hstage
  · rw [hj, Option.any_some] at htears
    obtain ⟨e, hst⟩ := isTearingDown_spec htears
    exact ⟨0, j, e, hid ▸ hj, hst, hgo'⟩

end Race

/-- The second attempt of a call costs another call its session. -/
theorem teardown_removes_another : ¬ ∀ story k c₀ c₁ trace c₂ c₃,
    Teardown .default true story k c₀ c₁ trace c₂ c₃ →
      ∀ n, c₂.openAt n = true → c₃.openAt n = false → c₀.sessionAt? = some n := by
  intro hown
  obtain ⟨story, k, c₀, c₁, trace, c₂, c₃, htear, hold, -, -, hopen, hshut⟩ := Race.torn
  have hbad := hown story k c₀ c₁ trace c₂ c₃ htear 1 hopen hshut
  rw [hold] at hbad
  cases hbad

theorem teardown_removes_raced : ∃ story k c₀ c₁ trace c₂ c₃,
    Teardown .default true story k c₀ c₁ trace c₂ c₃ ∧ c₁.session = none ∧
      (∃ j ∈ trace, j.id ≠ k.id ∧ j.stage = .beforeInstallation 1) ∧ c₃.session = none ∧
      ∀ j ∈ c₂.calls, j.stage.isSending = false := by
  obtain ⟨story, k, c₀, c₁, trace, c₂, c₃, htear, -, -, hnew, -⟩ := Race.torn
  obtain ⟨hnone, -, hinstalled, hdropped, -, hsends⟩ := teardown_removes htear
  exact ⟨story, k, c₀, c₁, trace, c₂, c₃, htear, hnone, hinstalled 1 hnew, hdropped, hsends rfl⟩

end Relay
end MarketFeed
