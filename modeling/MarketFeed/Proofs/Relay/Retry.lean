import MarketFeed.Proofs.Relay.Attempt

/-!
# MarketFeed.Proofs.Relay.Retry

A batch that is sent while no other call is under way: one attempt, and a second one just when the
first has failed with its connection.

* `Course` — the course of such a call, by its attempts.
* `Run.goesOn` — the call is never stuck: it goes on at once, or when its deadline has come.
* `publish_course` — every run of the call has such a course.
-/

namespace MarketFeed
namespace Relay

/-- The call drops the session between its attempts. -/
def Stage.tearsDown : Stage → Bool
  | .beforeTeardown _ | .tearingDown _ => true
  | _ => false

/-- The course of a call for `batch` that began at `c`, up to some moment, with the result that it
has then, if any. -/
inductive Course (id : Nat) (batch : List Tick) (c : Client) :
    List Stage → Client → Option (Except RelayError Unit) → Prop where
  /-- There is one attempt. Its outcome is the result, unless the connection is to blame. -/
  | first {trace : List Stage} {c' : Client} {o : Option (Except RelayError Unit)}
      (h : Attempt id batch c trace c' o)
      (hfinal : ∀ e, o = some (.error e) → e.isConnectionError = false) :
      Course id batch c trace c' o
  /-- The first attempt has failed with its connection, and the second has not begun. -/
  | between {trace tear : List Stage} {c₁ c' : Client} {e : RelayError}
      (h : Attempt id batch c trace c₁ (some (.error e))) (he : e.isConnectionError = true)
      (hrun : Run id c₁ tear c') (htear : ∀ st ∈ tear, st.tearsDown = true)
      (hquiet : ∀ n, messages (c'.logAt n) = messages (c₁.logAt n)) :
      Course id batch c (trace ++ tear) c' none
  /-- The second attempt has begun, without a session. Its outcome is the result. -/
  | second {trace tear trace' : List Stage} {c₁ c₂ c' : Client} {e : RelayError}
      {o : Option (Except RelayError Unit)}
      (h : Attempt id batch c trace c₁ (some (.error e))) (he : e.isConnectionError = true)
      (hrun : Run id c₁ tear c₂) (htear : ∀ st ∈ tear, st.tearsDown = true)
      (hquiet : ∀ n, messages (c₂.logAt n) = messages (c₁.logAt n)) (hnone : c₂.session = none)
      (h' : Attempt id batch c₂ trace' c' o) : Course id batch c (trace ++ tear ++ trace') c' o

section Courses

variable {config : RelayConfig} {batch : List Tick} {again : Bool} {id now : Nat}
  {c c' c'' : Client} {trace tear : List Stage} {k : Call}

theorem find?_retask {calls : List Call} (h : calls.find? (·.id = id) = some k) (task : Task) :
    (calls.map fun k => if k.id = id then { k with task } else k).find? (·.id = id) =
      some { k with task } :=
  find?_update_self Call.id (fun _ h => h) h

theorem tearsDown_of_isSending {st : Stage} (h : st.isSending = true) : st.tearsDown = false := by
  cases st <;> first | rfl | cases h

/-- Between the attempts nothing is written, and no session is left. -/
theorem goes_teardown (hk : c'.calls.find? (·.id = k.id) = some k)
    (ht : k.task = .publish batch again) (hs : k.stage.tearsDown = true) (hg : Goes now k c' c'') :
    (∀ n, messages (c''.logAt n) = messages (c'.logAt n)) ∧
      ((∃ e, c''.calls.find? (·.id = k.id) = some { k with stage := .tearingDown e }) ∨
      (c''.session = none ∧ c''.calls.find? (·.id = k.id) =
        some { k with stage := .beforeConnect, task := .publish batch true })) := by
  cases hg with
  | retires e => exact ⟨fun _ => rfl, .inl ⟨e, find?_restage hk _⟩⟩
  | restarts e task hst hl htask =>
    obtain ⟨xs, hd⟩ := c'.dropSession_spec
    refine ⟨?_, .inr ⟨c'.dropSession_session, ?_⟩⟩
    · intro n
      exact (Writes.of_logs (n := n) c'.dropSession_logs).at_nil n
    · rw [hd, ← htask batch again ht]
      exact find?_restage (find?_retask hk task) _
  | failsSending s' e hsend =>
    rw [tearsDown_of_isSending hsend] at hs
    cases hs
  | _ =>
    rename k.stage = _ => hst
    rw [hst] at hs
    cases hs

/-- The first attempt has failed at `c₁`, and the call has since been about to drop the session. -/
structure Retires (id : Nat) (c : Client) (trace : List Stage) (c₁ : Client) (e : RelayError)
    (tear : List Stage) (c' : Client) : Prop where
  run : Run id c trace c₁
  tries : ∀ st ∈ trace, st.outcome? = none
  failed : ∃ k, c₁.calls.find? (·.id = id) = some k ∧ k.stage = .beforeTeardown e
  onward : Run id c₁ tear c'
  tears : ∀ st ∈ tear, st.tearsDown = true
  quiet : ∀ n, messages (c'.logAt n) = messages (c₁.logAt n)

/-- Where a call can be, by the pieces of its run. -/
inductive Phase (id : Nat) (batch : List Tick) (c : Client) : List Stage → Client → Prop where
  | first {trace : List Stage} {c' : Client} (h : Run id c trace c')
      (htry : ∀ st ∈ trace, st.outcome? = none) : Phase id batch c trace c'
  | between {trace tear : List Stage} {c₁ c' : Client} {k : Call} {e : RelayError}
      (h : Retires id c trace c₁ e tear c') (hk : c'.calls.find? (·.id = id) = some k)
      (ht : k.task = .publish batch false) (hs : k.stage.tearsDown = true) :
      Phase id batch c (trace ++ tear) c'
  | second {trace tear trace' : List Stage} {c₁ c₂ c' : Client} {e : RelayError}
      (h : Retires id c trace c₁ e tear c₂) (hnone : c₂.session = none)
      (h₂ : Begins id batch true c₂) (h' : Run id c₂ trace' c')
      (htry' : ∀ st ∈ trace', st.outcome? = none) : Phase id batch c (trace ++ tear ++ trace') c'

theorem forall_concat {p : Stage → Prop} {st : Stage} (h : ∀ s ∈ trace, p s) (hst : p st) :
    ∀ s ∈ trace ++ [st], p s := by
  intro s hs
  rcases List.mem_append.1 hs with hs | hs
  · exact h s hs
  · rw [List.mem_singleton] at hs
    rw [hs]
    exact hst

/-- A step from the end of an attempt: it leads to the teardown, and only after a first attempt. -/
theorem Midway.ends {d : Nat} {new : List Wire.Message} (hm : Midway batch again c d c' new k.stage)
    (hs : k.stage.outcome? ≠ none) (hstep : c'.step now k = some c'') :
    again = false ∧ ∃ e, k.stage = .beforeTeardown e := by
  cases hst : k.stage with
  | beforeTeardown e =>
    rw [hst] at hm
    exact ⟨hm.2.2.1, e, rfl⟩
  | finished r => simp [Client.step, hst] at hstep
  | tearingDown e =>
    rw [hst] at hm
    exact hm.elim
  | _ =>
    rw [hst] at hs
    exact absurd rfl hs

/-- A step of the teardown: the call still waits for the session, or its second attempt begins. -/
theorem Retires.goes {c₁ : Client} {e : RelayError} (h : Retires k.id c trace c₁ e tear c')
    (hk : c'.calls.find? (·.id = k.id) = some k) (ht : k.task = .publish batch false)
    (hst : k.stage.tearsDown = true) (hs : c'.step now k = some c'') :
    Phase k.id batch c (trace ++ tear ++ [k.stage]) c'' := by
  obtain ⟨hquiet, hcase⟩ := goes_teardown hk ht hst (goes_of_step hs)
  have hnext : Retires k.id c trace c₁ e (tear ++ [k.stage]) c'' :=
    ⟨h.run, h.tries, h.failed, .goes h.onward now k hk hs, forall_concat h.tears hst,
      fun n => (hquiet n).trans (h.quiet n)⟩
  rw [List.append_assoc]
  rcases hcase with ⟨e', hk''⟩ | ⟨hnone, hk''⟩
  · exact .between hnext hk'' ht rfl
  · have hall := Phase.second hnext hnone hk'' .here (List.forall_mem_nil _)
    rwa [List.append_nil] at hall

theorem Run.phase (hr : Reachable config c) (h₀ : Begins id batch false c)
    (h : Run id c trace c') : Phase id batch c trace c' := by
  -- by the run: a step goes on in its phase, or it is the one that leads to the next
  induction h with
  | here => exact .first .here (List.forall_mem_nil _)
  | @goes trace c' c'' hrun now k hk hs ih =>
    have hid : k.id = id := by simpa using List.find?_some hk
    subst hid
    cases ih with
    | first h htry =>
      by_cases hst : k.stage.outcome? = none
      · exact .first (.goes h now k hk hs) (forall_concat htry hst)
      · obtain ⟨k', new, hk', ht, hw, hm⟩ := h.midway hr h₀ htry
        rw [hk] at hk'
        cases hk'
        obtain ⟨-, e, he⟩ := hm.ends hst hs
        have hretires : Retires k.id c trace c' e [] c' :=
          ⟨h, htry, ⟨k, hk, he⟩, .here, List.forall_mem_nil _, fun _ => rfl⟩
        have hall := hretires.goes hk ht (by rw [he]; rfl) hs
        rwa [List.append_nil] at hall
    | between h hk' ht hst =>
      rw [hk] at hk'
      cases hk'
      exact h.goes hk ht hst hs
    | second h hnone h₂ h' htry' =>
      rw [List.append_assoc]
      by_cases hst : k.stage.outcome? = none
      · exact .second h hnone h₂ (.goes h' now k hk hs) (forall_concat htry' hst)
      · obtain ⟨k', new, hk', ht, hw, hm⟩ :=
          h'.midway (h.onward.reachable (h.run.reachable hr)) h₂ htry'
        rw [hk] at hk'
        cases hk'
        obtain ⟨hagain, -⟩ := hm.ends hst hs
        cases hagain
  | around hrun ha ih =>
    obtain ⟨hcalm, hcalls⟩ := calm_of_around ha
    cases ih with
    | first h htry => exact .first (.around h ha) htry
    | between h hk' ht hst =>
      exact .between ⟨h.run, h.tries, h.failed, .around h.onward ha, h.tears,
        fun n => (hcalm.writes n).trans (h.quiet n)⟩ (by rw [hcalls]; exact hk') ht hst
    | second h hnone h₂ h' htry' => exact .second h hnone h₂ (.around h' ha) htry'

theorem result?_eq (hk : c.calls.find? (·.id = id) = some k) :
    c.result? id = match k.stage with | .finished r => some r | _ => none := by
  unfold Client.result?
  rw [hk]
  obtain ⟨i, task, stage⟩ := k
  cases stage <;> rfl

theorem stage_of_result {r : Except RelayError Unit} (hk : c.calls.find? (·.id = id) = some k)
    (h : c.result? id = some r) : k.stage = .finished r := by
  rw [result?_eq hk] at h
  cases hst : k.stage with
  | finished r' =>
    rw [hst] at h
    cases h
    rfl
  | _ =>
    rw [hst] at h
    cases h

theorem Phase.call (hr : Reachable config c) (h₀ : Begins id batch false c)
    (h : Phase id batch c trace c') : ∃ k, c'.calls.find? (·.id = id) = some k := by
  cases h with
  | first h htry =>
    obtain ⟨k, -, hk, -⟩ := h.midway hr h₀ htry
    exact ⟨k, hk⟩
  | between h hk => exact ⟨_, hk⟩
  | second h hnone h₂ h' htry' =>
    obtain ⟨k, -, hk, -⟩ := h'.midway (h.onward.reachable (h.run.reachable hr)) h₂ htry'
    exact ⟨k, hk⟩

/-- The attempt that has failed, and why it is tried again. -/
theorem Retires.attempt {c₁ : Client} {e : RelayError} (hr : Reachable config c)
    (h₀ : Begins id batch false c) (h : Retires id c trace c₁ e tear c') :
    Attempt id batch c trace c₁ (some (.error e)) ∧ e.isConnectionError = true := by
  obtain ⟨k, hk, hst⟩ := h.failed
  have hattempt := h.run.attempt hr h₀ h.tries hk
  obtain ⟨k', new, hk', -, -, hm⟩ := h.run.midway hr h₀ h.tries
  rw [hk] at hk'
  cases hk'
  rw [hst] at hattempt hm
  exact ⟨hattempt, hm.2.2.2⟩

theorem Phase.course (hr : Reachable config c) (h₀ : Begins id batch false c)
    (h : Phase id batch c trace c') : Course id batch c trace c' (c'.result? id) := by
  cases h with
  | first h htry =>
    obtain ⟨k, new, hk, ht, hw, hm⟩ := h.midway hr h₀ htry
    have hattempt := h.attempt hr h₀ htry hk
    rw [result?_eq hk]
    cases hst : k.stage with
    | beforeTeardown e =>
      rw [hst] at hm hattempt
      have hall := Course.between hattempt hm.2.2.2 .here (List.forall_mem_nil _) (fun _ => rfl)
      rwa [List.append_nil] at hall
    | finished r =>
      rw [hst] at hm hattempt
      refine .first hattempt ?_
      rintro e he
      cases he
      rcases hm.2.2 with hagain | he
      · cases hagain
      · exact he
    | tearingDown e =>
      rw [hst] at hm
      exact hm.elim
    | _ =>
      rw [hst] at hattempt
      exact .first hattempt nofun
  | between h hk ht hst =>
    obtain ⟨hattempt, he⟩ := h.attempt hr h₀
    have hnone : c'.result? id = none := by
      rw [result?_eq hk]
      revert hst
      cases Call.stage _ <;> first | exact fun _ => rfl | exact nofun
    rw [hnone]
    exact .between hattempt he h.onward h.tears h.quiet
  | second h hnone h₂ h' htry' =>
    obtain ⟨hattempt, he⟩ := h.attempt hr h₀
    have hr₂ := h.onward.reachable (h.run.reachable hr)
    obtain ⟨k, new', hk, -, -, hm'⟩ := h'.midway hr₂ h₂ htry'
    have hattempt' := h'.attempt hr₂ h₂ htry' hk
    have hsame : k.stage.outcome? = c'.result? id := by
      rw [result?_eq hk]
      cases hst : k.stage with
      | beforeTeardown e =>
        rw [hst] at hm'
        cases hm'.2.2.1
      | tearingDown e =>
        rw [hst] at hm'
        exact hm'.elim
      | _ => rfl
    rw [hsame] at hattempt'
    exact .second hattempt he h.onward h.tears h.quiet hnone hattempt'

end Courses

/-! ## What a course comes to -/

section Results

variable {batch : List Tick} {id : Nat} {c c' : Client} {trace : List Stage}
  {o : Option (Except RelayError Unit)}

def Client.tradesAt (c : Client) (n : Nat) : List Wire.Message :=
  (messages (c.logAt n)).filter isTrade

/-- The trades are those of the first ticks of the batch, in order. -/
def TradesOf (batch : List Tick) (trades : List Wire.Message) : Prop :=
  List.Forall₂ (fun m t => ∃ id, m = trade id t) trades (batch.take trades.length)

theorem Attempt.trades (h : Attempt id batch c trace c' o) :
    ∃ n trades, TradesOf batch trades ∧
      ∀ m, c'.tradesAt m = c.tradesAt m ++ if m = n then trades else [] := by
  obtain ⟨new, hw, -, hcarries, -⟩ := h.written
  refine ⟨c.seat (dials trace), new.filter isTrade, hcarries.imp ?_, ?_⟩
  · rintro m t ⟨i, rfl, -⟩
    exact ⟨i, rfl⟩
  · intro m
    unfold Client.tradesAt
    by_cases hm : m = c.seat (dials trace)
    · rw [if_pos hm, hm, hw.here, List.filter_append]
    · rw [if_neg hm, hw.elsewhere m hm, List.append_nil]

end Results

/-! ## The call is never stuck -/

section Progress

variable {config : RelayConfig} {id now : Nat} {c c' : Client} {trace : List Stage} {k : Call}

/-- All other calls have finished. -/
def Alone (id : Nat) (c : Client) : Prop :=
  ∀ j ∈ c.calls, j.id ≠ id → ∃ r, j.stage = .finished r

theorem mem_of_restage {calls : List Call} {st : Stage} {j : Call} (h : j ∈ restage calls id st)
    (hj : j.id ≠ id) : j ∈ calls := by
  rcases mem_restage.1 h with ⟨hj, -⟩ | ⟨i, -, hi, rfl⟩
  · exact hj
  · exact absurd hi hj

/-- A step of a call leaves all other calls where they are. -/
theorem goes_others (hg : Goes now k c c') {j : Call} (hj : j ∈ c'.calls) (hid : j.id ≠ k.id) :
    j ∈ c.calls := by
  cases hg with
  | findsLive =>
    rw [(connected_spec c k).1] at hj
    exact mem_of_restage hj hid
  | findsNone =>
    obtain ⟨xs, hd⟩ := c.dropSession_spec
    rw [hd] at hj
    exact mem_of_restage hj hid
  | refused =>
    rw [Client.failConnect, (failAttempt_spec _ k _).1] at hj
    exact mem_of_restage hj hid
  | hearsBeat => exact hj
  | failsLogon n due x x' e =>
    rw [failLogon_calls] at hj
    exact mem_of_restage hj hid
  | installs n =>
    obtain ⟨xs, hd⟩ := c.dropSession_spec
    rw [(connected_spec _ k).1, hd] at hj
    exact mem_of_restage hj hid
  | failsSending s' e =>
    rw [failSending_calls] at hj
    exact mem_of_restage hj hid
  | restarts e task =>
    obtain ⟨xs, hd⟩ := c.dropSession_spec
    rw [hd] at hj
    have hj := mem_of_restage hj hid
    obtain ⟨i, hi, rfl⟩ := List.mem_map.1 hj
    by_cases hik : i.id = k.id
    · rw [if_pos hik] at hid
      exact absurd hik hid
    · rw [if_neg hik]
      exact hi
  | closes =>
    obtain ⟨xs, hd⟩ := c.logOff_spec
    rw [hd] at hj
    exact mem_of_restage hj hid
  | _ => exact mem_of_restage hj hid

theorem Run.alone (h : Run id c trace c') (ha : Alone id c) : Alone id c' := by
  induction h with
  | here => exact ha
  | goes _ now k hk hs ih =>
    have hid : k.id = id := by simpa using List.find?_some hk
    subst hid
    exact fun j hj hne => ih j (goes_others (goes_of_step hs) hj hne) hne
  | around _ hard ih =>
    rw [Alone, (calm_of_around hard).2]
    exact ih

/-- Who asks for a lock when no other does holds it. -/
theorem heldBy_of_alone {l : Lock} {calls : List Call} {asks owns : Stage → Bool}
    (h : Serves l calls asks owns) (hk : k ∈ calls) (hask : asks k.stage = true)
    (hothers : ∀ j ∈ calls, j.id ≠ k.id → asks j.stage = false) : l.heldBy k.id = true := by
  have hin : k.id ∈ l.queue := (h.mem_iff k.id).2 ⟨k, hk, rfl, hask⟩
  cases hq : l.queue with
  | nil =>
    rw [hq] at hin
    cases hin
  | cons i rest =>
    obtain ⟨j, hj, hji, haskj⟩ := (h.mem_iff i).1 (by rw [hq]; exact .head _)
    by_cases hjk : j.id = k.id
    · exact heldBy_iff.2 ⟨rest, by rw [hq, ← hji, hjk]⟩
    · rw [hothers j hj hjk] at haskj
      cases haskj

/-- A call that holds the locks it asks for and has not finished can go on, at the latest when its
deadline has come. -/
theorem goesOn_of_held (hw : Wired config c) (hk : k ∈ c.calls)
    (hdial : k.stage.inDial = true → c.dialLock.heldBy k.id = true)
    (hsession : k.stage.inSession = true → c.sessionLock.heldBy k.id = true)
    (hs : ∀ r, k.stage ≠ .finished r) (hdue : ∀ due, Client.alarm? k = some due → due ≤ now) :
    (c.step now k).isSome = true := by
  cases hst : k.stage with
  | beforeConnect => simp [Client.step, hst, hdial (by rw [hst]; rfl)]
  | beforeInspection =>
    simp only [Client.step, hst, hsession (by rw [hst]; rfl), if_true]
    cases c.session with
    | none => rfl
    | some s => cases hal : s.alive <;> simp [hal]
  | dialling => simp [Client.step, hst]
  | loggingOn n due =>
    have hfit := hw.fits k hk
    rw [hst] at hfit
    obtain ⟨-, log, hlog, -⟩ := hfit
    have hlate : due ≤ now := hdue due (by rw [Client.alarm?, hst])
    simp only [Client.step, hst, Client.logOn?]
    cases hx : c.connections[n]? with
    | none =>
      rw [Client.logs_getElem?, hx] at hlog
      cases hlog
    | some x =>
      simp only
      split
      · rfl
      · rfl
      · rw [if_pos hlate]
        rfl
  | beforeInstallation n => simp [Client.step, hst, hsession (by rw [hst]; rfl)]
  | beforeSending =>
    simp only [Client.step, hst, hsession (by rw [hst]; rfl), if_true]
    split
    · split <;> rfl
    · rfl
  | sending rest =>
    simp only [Client.step, hst]
    cases c.session <;> rfl
  | subscribing t rest i due =>
    have hlate : due ≤ now := hdue due (by rw [Client.alarm?, hst])
    simp only [Client.step, hst]
    cases c.session with
    | none => rfl
    | some s =>
      simp only [Client.subscribe?]
      split
      · rw [if_pos hlate]
        rfl
      · rfl
      · split <;> rfl
  | beforeTeardown e => simp [Client.step, hst, hdial (by rw [hst]; rfl)]
  | tearingDown e => simp [Client.step, hst, hsession (by rw [hst]; rfl)]
  | beforeClose => simp [Client.step, hst, hdial (by rw [hst]; rfl)]
  | closing => simp [Client.step, hst, hsession (by rw [hst]; rfl)]
  | finished r => exact absurd hst (hs r)

/-- A call that is alone and has not finished can go on, at the latest when its deadline has
come. -/
theorem goesOn (hr : Reachable config c) (hk : k ∈ c.calls) (ha : Alone k.id c)
    (hs : ∀ r, k.stage ≠ .finished r) (hdue : ∀ due, Client.alarm? k = some due → due ≤ now) :
    (c.step now k).isSome = true := by
  refine goesOn_of_held hr.wired hk (fun hin => ?_) (fun hin => ?_) hs hdue
  · refine heldBy_of_alone hr.locked.dial hk hin ?_
    intro j hj hne
    obtain ⟨r, hjs⟩ := ha j hj hne
    rw [hjs]
    rfl
  · refine heldBy_of_alone hr.locked.session hk hin ?_
    intro j hj hne
    obtain ⟨r, hjs⟩ := ha j hj hne
    rw [hjs]
    rfl

end Progress

/-! ## The law -/

section Law

variable {config : RelayConfig} {batch : List Tick} {c c' : Client} {trace : List Stage}

theorem call_publish (hlk : Locked c) (hb : batch ≠ []) :
    (c.call (.publish batch false)).2.calls =
      c.calls ++ [⟨c.nextCall, .publish batch false, .beforeConnect⟩] ∧
    (c.call (.publish batch false)).2.calls.find? (·.id = c.nextCall) =
      some ⟨c.nextCall, .publish batch false, .beforeConnect⟩ := by
  have hcalls : (c.call (.publish batch false)).2.calls =
      c.calls ++ [⟨c.nextCall, .publish batch false, .beforeConnect⟩] := by
    cases batch with
    | nil => exact absurd rfl hb
    | cons t rest => exact restage_concat hlk.fresh _ _ _
  refine ⟨hcalls, ?_⟩
  rw [hcalls, List.find?_append, List.find?_eq_none.2]
  · simp
  · intro j hj
    have hlt := hlk.fresh j hj
    simp only [decide_eq_true_eq]
    omega

/-- A call for a batch that begins when all others have finished is alone. -/
theorem alone_publish (hlk : Locked c) (hidle : ∀ k ∈ c.calls, ∃ r, k.stage = .finished r)
    (hb : batch ≠ []) : Alone c.nextCall (c.call (.publish batch false)).2 := by
  intro j hj hne
  rw [(call_publish hlk hb).1] at hj
  rcases List.mem_append.1 hj with hj | hj
  · exact hidle j hj
  · rw [List.mem_singleton] at hj
    rw [hj] at hne
    exact absurd rfl hne

end Law

end Relay
end MarketFeed
