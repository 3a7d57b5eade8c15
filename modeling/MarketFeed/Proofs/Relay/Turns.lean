import MarketFeed.Proofs.Relay.Story

/-!
# MarketFeed.Proofs.Relay.Turns

How the two locks of a client go together.

* `sessionLock_of_goes` — only who holds the dialling lock ever asks for the session's.
* `session_of_goes` — only who holds the session's lock changes the session.
* `Queued`, `Told.queued` — where locks are handed on in turn, who waits for the session with the
  dialling lock waits behind all others, and who dials or logs on finds no one waiting.
* `Locked.someoneHolds` — an unfinished call holds all locks that it asks for.
-/

namespace MarketFeed
namespace Relay

/-! ## The session and its lock -/

/-- The connection of the session. -/
def Client.sessionAt? (c : Client) : Option Nat := c.session.map Session.connection

section Session

variable {config : RelayConfig} {c c' : Client} {now : Nat} {k : Call}

theorem failAttempt_sessionLock (c : Client) (k : Call) (e : RelayError) :
    (c.failAttempt k e).sessionLock = c.sessionLock := by
  rw [Client.failAttempt_eq]
  split <;> rfl

theorem failSending_sessionLock (c : Client) (k : Call) (e : RelayError) :
    (c.failSending k e).sessionLock = c.sessionLock.leave k.id := by
  rw [Client.failSending, failAttempt_sessionLock]
  split
  · obtain ⟨xs, hd⟩ := c.dropSession_spec
    rw [hd]
    rfl
  · rfl

theorem connected_sessionLock (c : Client) (k : Call) :
    (c.connected k).sessionLock = c.sessionLock.leave k.id ∨
      (c.connected k).sessionLock = (c.sessionLock.leave k.id).join k.id := by
  unfold Client.connected
  split
  · exact .inr rfl
  · exact .inl rfl

/-- The queue for the session stays, or the call leaves it. To ask for the session the call has to
hold the dialling lock. -/
theorem sessionLock_of_goes (hlk : Locked c) (hk : k ∈ c.calls) (hg : Goes now k c c') :
    c'.sessionLock = c.sessionLock ∨ c'.sessionLock = c.sessionLock.leave k.id ∨
      (c.dialLock.heldBy k.id = true ∧ (c'.sessionLock = c.sessionLock.join k.id ∨
        c'.sessionLock = (c.sessionLock.leave k.id).join k.id)) := by
  have hheld {st : Stage} (hs : k.stage = st) (ho : st.ownsDial = true) :
      c.dialLock.heldBy k.id = true := hlk.dial.head k hk (hs ▸ ho)
  cases hg with
  | enters hs hl => exact .inr (.inr ⟨hl, .inl rfl⟩)
  | findsLive s hs =>
    rcases connected_sessionLock c k with h | h
    · exact .inr (.inl h)
    · exact .inr (.inr ⟨hheld hs rfl, .inr h⟩)
  | findsNone hs =>
    obtain ⟨xs, hd⟩ := c.dropSession_spec
    rw [hd]
    exact .inr (.inl rfl)
  | refused hs => exact .inl (failAttempt_sessionLock _ k _)
  | welcomed n due x x' f v text hs => exact .inr (.inr ⟨hheld hs rfl, .inl rfl⟩)
  | failsLogon n due x x' e hs => exact .inl (failAttempt_sessionLock _ k e)
  | installs n hs =>
    obtain ⟨xs, hd⟩ := c.dropSession_spec
    rw [hd]
    rcases connected_sessionLock
      { c with connections := xs, session := some (.start n) } k with h | h
    · exact .inr (.inl h)
    · exact .inr (.inr ⟨hheld hs rfl, .inr h⟩)
  | completes s hs => exact .inr (.inl rfl)
  | isRejected => exact .inr (.inl rfl)
  | failsSending s' e => exact .inr (.inl (failSending_sessionLock _ k e))
  | retires e hs hl => exact .inr (.inr ⟨hl, .inl rfl⟩)
  | restarts e task hs =>
    obtain ⟨xs, hd⟩ := c.dropSession_spec
    rw [hd]
    exact .inr (.inl rfl)
  | prepares hs hl => exact .inr (.inr ⟨hl, .inl rfl⟩)
  | closes hs =>
    obtain ⟨xs, hd⟩ := c.logOff_spec
    rw [hd]
    exact .inr (.inl rfl)
  | _ => exact .inl rfl

/-- Another call goes on: who holds the session still does. -/
theorem heldBy_of_goes (hlk : Locked c) (hk : k ∈ c.calls) (hg : Goes now k c c') {id : Nat}
    (hne : id ≠ k.id) (h : c.sessionLock.heldBy id = true) :
    c'.sessionLock.heldBy id = true := by
  rcases sessionLock_of_goes hlk hk hg with hl | hl | ⟨-, hl | hl⟩ <;> rw [hl]
  · exact h
  · exact heldBy_leave h hne
  · exact heldBy_join h _
  · exact heldBy_join (heldBy_leave h hne) _

/-- Only who holds the session can put another in its place, or drop it. -/
theorem session_of_goes (hlk : Locked c) (hk : k ∈ c.calls) (hg : Goes now k c c')
    (hl : c.sessionLock.heldBy k.id = false) : c'.session = c.session := by
  have hfree {st : Stage} (hs : k.stage = st) (ho : st.ownsSession = true) : False := by
    rw [hlk.session.head k hk (hs ▸ ho)] at hl
    cases hl
  have hout (h : c.sessionLock.heldBy k.id = true) : False := by
    rw [h] at hl
    cases hl
  cases hg with
  | findsLive s hs hl => exact (hout hl).elim
  | findsNone hs hl => exact (hout hl).elim
  | refused hs => exact (failAttempt_spec _ k _).2.2.1
  | failsLogon n due x x' e => exact (failAttempt_spec _ k e).2.2.1
  | installs n hs hl => exact (hout hl).elim
  | asks s t rest x x' hs => exact (hfree hs rfl).elim
  | isConfirmed s t rest id due f q x x' hs => exact (hfree hs rfl).elim
  | isRejected s t rest id due f q reason hs => exact (hfree hs rfl).elim
  | failsSending s' e hs hl' =>
    refine (hout ?_).elim
    cases hst : k.stage with
    | beforeSending => exact hl' hst
    | sending rest => exact hlk.session.head k hk (by rw [hst]; rfl)
    | subscribing t rest id due => exact hlk.session.head k hk (by rw [hst]; rfl)
    | _ =>
      rw [hst] at hs
      cases hs
  | restarts e task hs hl => exact (hout hl).elim
  | closes hs hl => exact (hout hl).elim
  | _ => rfl

theorem around_spec (ha : Around c c') : c'.sessionAt? = c.sessionAt? ∧
    c'.sessionLock = c.sessionLock ∧ c'.dialLock = c.dialLock ∧ c'.calls = c.calls ∧
    c'.nextCall = c.nextCall := by
  cases ha with
  | reads hr =>
    obtain ⟨s, x, x', hs, -, -, ⟨f, -, -, rfl⟩ | ⟨f, -, -, rfl⟩ | ⟨e, -, rfl⟩⟩ := read_cases hr
    · refine ⟨?_, rfl, rfl, rfl, rfl⟩
      rw [Client.sessionAt?, Client.sessionAt?, hs]
    · refine ⟨?_, rfl, rfl, rfl, rfl⟩
      rw [Client.sessionAt?, Client.sessionAt?, hs]
      exact congrArg some (enqueue_connection s _)
    · refine ⟨?_, rfl, rfl, rfl, rfl⟩
      rw [Client.sessionAt?, Client.sessionAt?, hs]
      exact congrArg some (enqueue_connection _ _)
  | disturbs => exact ⟨rfl, rfl, rfl, rfl, rfl⟩
  | listens => exact ⟨rfl, rfl, rfl, rfl, rfl⟩

end Session

/-! ## Who waits for the session -/

/-- Who stands in the queue for the session while a call has the dialling lock. -/
def Queued (c : Client) (k : Call) : Prop :=
  match k.stage with
  | .dialling | .loggingOn .. => c.sessionLock.queue = []
  | .beforeInstallation _ => c.sessionLock.queue = [k.id]
  | .beforeInspection | .tearingDown _ | .closing => c.sessionLock.queue.getLast? = some k.id
  | _ => True

section Queues

variable {config : RelayConfig} {story : List Entry} {c c' : Client} {now : Nat} {k : Call}

theorem call_spec (c : Client) (task : Task) :
    (c.call task).2.sessionLock = c.sessionLock ∧ (c.call task).2.session = c.session ∧
      (c.call task).2.connections = c.connections ∧ (c.call task).2.nextCall = c.nextCall + 1 := by
  cases task with
  | connect => exact ⟨rfl, rfl, rfl, rfl⟩
  | close => exact ⟨rfl, rfl, rfl, rfl⟩
  | publish batch again => cases batch <;> exact ⟨rfl, rfl, rfl, rfl⟩

/-- A new call is about to ask for the dialling lock, or has finished. -/
theorem mem_call (hlk : Locked c) {task : Task} {j : Call} (hj : j ∈ (c.call task).2.calls) :
    j ∈ c.calls ∨ j.id = c.nextCall ∧ j.task = task ∧ (j.stage = .beforeConnect ∨
      j.stage = .beforeClose ∨ j.stage = .finished (.ok ())) := by
  have hnew : ∀ st, j ∈ restage (c.calls ++ [⟨c.nextCall, task, .beforeConnect⟩]) c.nextCall st →
      j ∈ c.calls ∨ j = ⟨c.nextCall, task, st⟩ := by
    intro st hj
    rw [restage_concat hlk.fresh] at hj
    exact (List.mem_append.1 hj).imp_right List.mem_singleton.1
  cases task with
  | connect =>
    rcases hnew .beforeConnect hj with hj | rfl
    · exact .inl hj
    · exact .inr ⟨rfl, rfl, .inl rfl⟩
  | close =>
    rcases hnew .beforeClose hj with hj | rfl
    · exact .inl hj
    · exact .inr ⟨rfl, rfl, .inr (.inl rfl)⟩
  | publish batch again =>
    cases batch with
    | nil =>
      rcases hnew (.finished (.ok ())) hj with hj | rfl
      · exact .inl hj
      · exact .inr ⟨rfl, rfl, .inr (.inr rfl)⟩
    | cons t batch =>
      rcases hnew .beforeConnect hj with hj | rfl
      · exact .inl hj
      · exact .inr ⟨rfl, rfl, .inl rfl⟩

theorem abandon_locks (hk : c.calls.find? (·.id = k.id) = some k) :
    (c.abandon k.id).sessionLock = c.sessionLock.leave k.id ∧
      (c.abandon k.id).nextCall = c.nextCall := by
  simp only [Client.abandon, hk]
  cases Client.ownConnection? k <;> cases Client.isDialling k <;> exact ⟨rfl, rfl⟩

theorem eq_of_mem_restage (hlk : Locked c) (hk : k ∈ c.calls) {st : Stage} {j : Call}
    (hj : j ∈ restage c.calls k.id st) (hid : j.id = k.id) : j = { k with stage := st } := by
  rcases mem_restage.1 hj with ⟨-, hne⟩ | ⟨i, hi, hik, rfl⟩
  · exact absurd hid hne
  · rw [eq_of_id_eq hlk.nodup hi hk hik]

/-- Who holds a lock and stands last in its queue is alone there. -/
theorem queue_of_ends {l : Lock} {i : Nat} (hu : l.queue.Nodup) (hh : l.heldBy i = true)
    (hl : l.queue.getLast? = some i) : l.queue = [i] := by
  obtain ⟨rest, hq⟩ := heldBy_iff.1 hh
  rw [hq] at hu hl ⊢
  cases rest with
  | nil => rfl
  | cons j rest =>
    rw [List.getLast?_cons_cons] at hl
    exact absurd (List.mem_of_getLast? hl) (List.nodup_cons.1 hu).1

theorem queued_of_free (h : k.stage.ownsDial = false) : Queued c k := by
  unfold Queued
  cases hst : k.stage <;> first | trivial | (rw [hst] at h; cases h)

theorem Queued.congr (h : Queued c k) (hl : c'.sessionLock = c.sessionLock) : Queued c' k := by
  unfold Queued at h ⊢
  rwa [hl]

/-- Another call leaves the queue. -/
theorem Queued.left (h : Queued c k) {id : Nat} (hne : k.id ≠ id)
    (hl : c'.sessionLock = c.sessionLock.leave id) : Queued c' k := by
  have hkept : [k.id].filter (· ≠ id) = [k.id] := by simp [hne]
  have hlast : c.sessionLock.queue.getLast? = some k.id →
      (c.sessionLock.leave id).queue.getLast? = some k.id := by
    intro hlast
    obtain ⟨before, hq⟩ := List.getLast?_eq_some_iff.1 hlast
    rw [Lock.leave, hq, List.filter_append, hkept, List.getLast?_concat]
  unfold Queued at h ⊢
  rw [hl]
  split at h
  · rw [Lock.leave, h, List.filter_nil]
  · rw [Lock.leave, h, List.filter_nil]
  · rw [Lock.leave, h, hkept]
  · exact hlast h
  · exact hlast h
  · exact hlast h
  · trivial

/-- Another call goes on. It does not hold the dialling lock, so it asks for nothing. -/
theorem Queued.beside (hlk : Locked c) (hk : k ∈ c.calls) (hg : Goes now k c c') {j : Call}
    (hj : j ∈ c.calls) (hne : j.id ≠ k.id) (h : Queued c j) : Queued c' j := by
  cases hd : j.stage.ownsDial with
  | false => exact queued_of_free hd
  | true =>
    rcases sessionLock_of_goes hlk hk hg with hl | hl | ⟨hheld, -⟩
    · exact h.congr hl
    · exact h.left hne hl
    · exact absurd (heldBy_unique (hlk.dial.head j hj hd) hheld) hne

theorem ownsDial_readiness (k : Call) : k.readiness.ownsDial = false := by
  unfold Call.readiness
  split <;> rfl

theorem ownsDial_failure (k : Call) (e : RelayError) : (k.failure e).ownsDial = false := by
  unfold Call.failure
  split <;> rfl

theorem Queued.goes (hlk : Locked c) (hk : k ∈ c.calls) (h : Queued c k) (hg : Goes now k c c')
    {j : Call} (hj : j ∈ c'.calls) (hid : j.id = k.id) : Queued c' j := by
  have hself : ∀ st, c'.calls = restage c.calls k.id st → Queued c' { k with stage := st } →
      Queued c' j := by
    intro st hcalls hst
    rw [hcalls] at hj
    rwa [eq_of_mem_restage hlk hk hj hid]
  have hfree : ∀ st, c'.calls = restage c.calls k.id st → st.ownsDial = false → Queued c' j :=
    fun st hcalls hst => hself st hcalls (queued_of_free hst)
  have hlast : (c.sessionLock.join k.id).queue.getLast? = some k.id := List.getLast?_concat
  cases hg with
  | enters => exact hself .beforeInspection rfl hlast
  | findsLive => exact hfree _ (connected_spec c k).1 (ownsDial_readiness k)
  | findsNone hs hl =>
    obtain ⟨xs, hd⟩ := c.dropSession_spec
    refine hself .dialling (by rw [hd]; rfl) ?_
    rw [Queued, hs] at h
    have halone := queue_of_ends hlk.session.nodup hl h
    rw [hd]
    change c.sessionLock.queue.filter (· ≠ k.id) = []
    rw [halone, List.filter_cons_of_neg (by simp), List.filter_nil]
  | refused => exact hfree _ (failAttempt_spec _ k _).1 (ownsDial_failure k _)
  | dials hs =>
    rw [Queued, hs] at h
    exact hself (.loggingOn c.connections.length (c.deadline now)) rfl h
  | hearsBeat =>
    rw [eq_of_id_eq hlk.nodup hj hk hid]
    exact h.congr rfl
  | welcomed n due x x' f v text hs =>
    rw [Queued, hs] at h
    refine hself (.beforeInstallation n) rfl ?_
    change c.sessionLock.queue ++ [k.id] = [k.id]
    rw [h, List.nil_append]
  | failsLogon n due x x' e => exact hfree _ (failLogon_calls _ k n e) (ownsDial_failure k e)
  | installs n =>
    obtain ⟨xs, hd⟩ := c.dropSession_spec
    refine hfree _ ((connected_spec _ k).1.trans ?_) (ownsDial_readiness k)
    rw [hd]
  | begins s batch => exact hfree (.sending batch) rfl rfl
  | completes => exact hfree (.finished (.ok ())) rfl rfl
  | trades s t rest => exact hfree (.sending rest) rfl rfl
  | asks s t rest => exact hfree (.subscribing t rest s.nextId (c.deadline now)) rfl rfl
  | isConfirmed s t rest => exact hfree (.sending rest) rfl rfl
  | isRejected s t rest id due f q reason =>
    exact hfree (.finished (.error (.subscriptionRejected t.symbol t.exchange reason))) rfl rfl
  | failsSending s' e => exact hfree _ (failSending_calls _ k e) (ownsDial_failure k e)
  | retires e => exact hself (.tearingDown e) rfl hlast
  | restarts e task =>
    obtain ⟨xs, hd⟩ := c.dropSession_spec
    rw [hd] at hj
    rcases mem_restage.1 hj with ⟨-, hne⟩ | ⟨i, -, -, rfl⟩
    · exact absurd hid hne
    · exact queued_of_free rfl
  | prepares => exact hself .closing rfl hlast
  | closes =>
    obtain ⟨xs, hd⟩ := c.logOff_spec
    exact hfree (.finished (.ok ())) (by rw [hd]; rfl) rfl

theorem Told.queued (h : Told config true story c) : ∀ k ∈ c.calls, Queued c k := by
  induction h with
  | new => exact fun k hk => by cases hk
  | @goes story c c' h now k hk hs ih =>
    have hmem := List.mem_of_find?_eq_some hk
    have hg := goes_of_step hs
    intro j hj
    by_cases hid : j.id = k.id
    · exact (ih k hmem).goes h.kept.1 hmem hg hj hid
    · have hold := goes_others hg hj hid
      exact (ih j hold).beside h.kept.1 hmem hg hold hid
  | around h ha ih =>
    obtain ⟨-, hl, -, hcalls, -⟩ := around_spec ha
    rw [hcalls]
    exact fun k hk => (ih k hk).congr hl
  | @calls story c h task ht ih =>
    intro j hj
    rcases mem_call h.kept.1 hj with hold | ⟨-, -, hst⟩
    · exact (ih j hold).congr (call_spec c task).1
    · refine queued_of_free ?_
      rcases hst with hst | hst | hst <;> rw [hst] <;> rfl
  | forgets h k r hk hs ih =>
    intro j hj
    exact (ih j (List.mem_filter.1 hj).1).congr rfl
  | @givesUp story c h k hk hs ih =>
    intro j hj
    rw [(abandon_spec hk).2.2.2] at hj
    obtain ⟨hold, hne⟩ := List.mem_filter.1 hj
    exact (ih j hold).left (of_decide_eq_true hne) (abandon_locks hk).1
  | reorders h hany => cases hany

end Queues

/-! ## Someone can go on -/

theorem Stage.ownsDial_of_both {st : Stage} (hd : st.inDial = true) (hs : st.inSession = true) :
    st.ownsDial = true := by
  cases st <;> simp_all [Stage.inDial, Stage.inSession, Stage.ownsDial]

theorem Stage.inDial_of_waiting {st : Stage} (hs : st.inSession = false)
    (hf : ∀ r, st ≠ .finished r) : st.inDial = true := by
  cases st <;> simp_all [Stage.inDial, Stage.inSession]

/-- While a call has not finished, one of them holds all locks that it asks for. -/
theorem Locked.someoneHolds {c : Client} (h : Locked c) {i : Call} (hi : i ∈ c.calls)
    (hs : ∀ r, i.stage ≠ .finished r) : ∃ k ∈ c.calls, (∀ r, k.stage ≠ .finished r) ∧
      (k.stage.inDial = true → c.dialLock.heldBy k.id = true) ∧
      (k.stage.inSession = true → c.sessionLock.heldBy k.id = true) := by
  cases hsession : c.sessionLock.queue with
  | cons id rest =>
    -- the first in the queue for the session has the dialling lock, if it needs it
    have hheld : c.sessionLock.heldBy id = true := heldBy_iff.2 ⟨rest, hsession⟩
    obtain ⟨k, hk, rfl, hin⟩ := (h.session.mem_iff id).1 (by rw [hsession]; exact .head _)
    refine ⟨k, hk, fun r hst => ?_, fun hdial => h.dial.head k hk ?_, fun _ => hheld⟩
    · rw [hst] at hin
      cases hin
    · exact Stage.ownsDial_of_both hdial hin
  | nil =>
    have hnone : ∀ k ∈ c.calls, k.stage.inSession = false := by
      intro k hk
      cases hin : k.stage.inSession with
      | false => rfl
      | true =>
        have hmem := (h.session.mem_iff k.id).2 ⟨k, hk, rfl, hin⟩
        rw [hsession] at hmem
        cases hmem
    have hmem := (h.dial.mem_iff i.id).2 ⟨i, hi, rfl, Stage.inDial_of_waiting (hnone i hi) hs⟩
    cases hdial : c.dialLock.queue with
    | nil =>
      rw [hdial] at hmem
      cases hmem
    | cons id rest =>
      have hheld : c.dialLock.heldBy id = true := heldBy_iff.2 ⟨rest, hdial⟩
      obtain ⟨k, hk, rfl, hin⟩ := (h.dial.mem_iff id).1 (by rw [hdial]; exact .head _)
      refine ⟨k, hk, fun r hst => ?_, fun _ => hheld, fun hsess => ?_⟩
      · rw [hst] at hin
        cases hin
      · rw [hnone k hk] at hsess
        cases hsess

end Relay
end MarketFeed
