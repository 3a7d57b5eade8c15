import MarketFeed.Proofs.Relay.Obliging

/-!
# MarketFeed.Proofs.Relay.Unsolicited

A batch that is sent to obliging peers, who may also send frames that nobody asked for. The queue is
emptied before a request, but what the reader has not taken by then is taken for the reply.

* `Obliged` — the runs of such a call.
* `publish_obliged` — the call succeeds, with the messages that its batch comes to, just when each
  request had its confirmation as the first frame after it.
* `unsolicited_hides_reply` — a run in which it fails.
-/

namespace MarketFeed
namespace Relay

/-! ## The runs -/

/-- A call goes on alone, and never comes to a deadline. The server goes on to listen, and the peers
that oblige go on to oblige. -/
inductive Obliged (id : Nat) (c : Client) : List Stage → Client → Prop where
  | here : Obliged id c [] c
  | goes {trace : List Stage} {c' c'' : Client} (h : Obliged id c trace c') (now : Nat) (k : Call)
      (hk : c'.calls.find? (·.id = id) = some k) (hs : c'.step now k = some c'')
      (hin : ∀ due, Client.alarm? k = some due → now < due) : Obliged id c (trace ++ [k.stage]) c''
  | reads {trace : List Stage} {c' c'' : Client} (h : Obliged id c trace c')
      (hr : c'.read = some c'') : Obliged id c trace c''
  | changes {trace : List Stage} {c' : Client} (h : Obliged id c trace c') (n : Nat)
      (x x' : Connection) (hx : c'.connections[n]? = some x) (hl : x'.log = x.log)
      (hc : x'.clientClosed = x.clientClosed) (ho : Obliging x → Obliging x') :
      Obliged id c trace (c'.onConnection n fun _ => x')

/-- The server listens, and a live session has an obliging peer. -/
structure Ready (c : Client) : Prop where
  listening : c.listening = true
  obliging : ∀ s x, c.session = some s → s.alive = true → c.connections[s.connection]? = some x →
    Obliging x

/-- The call goes on: at once, or when its reader has gone on, or when the peer has answered, from
whom nothing else has arrived. -/
inductive Underway (id n : Nat) (c : Client) : Prop where
  | goes (k : Call) (hk : c.calls.find? (·.id = id) = some k)
      (h : ∀ now, ∃ c', c.step now k = some c')
  | reads (c' : Client) (h : c.read = some c')
  | awaits (k : Call) (due : Nat) (x : Connection) (hk : c.calls.find? (·.id = id) = some k)
      (hdue : Client.alarm? k = some due) (hwait : ∀ now, now < due → c.step now k = none)
      (hx : c.connections[n]? = some x) (hn : x.next.1 = .nothing)

/-- Two clients to which a batch comes to the same: what has come in from their peers may differ. -/
structure Alike (c q : Client) : Prop where
  config : q.config = c.config
  toDial : q.toDial = c.toDial
  session : ∀ s s', c.session = some s → q.session = some s' →
    s'.subscriptions = s.subscriptions ∧ s'.nextId = s.nextId

/-- The call that began at `c` has succeeded, and has written on its home connection, and nowhere
else, what the batch comes to at `q`. -/
structure Delivered (id : Nat) (batch : List Tick) (q c c' : Client) : Prop where
  result : c'.result? id = some (.ok ())
  writes : Writes c c' c.home (q.plan q.toDial batch)

section Courses

variable {config : RelayConfig} {batch : List Tick} {id : Nat} {c c' q : Client}
  {trace : List Stage} {k : Call}

theorem Obliged.run (h : Obliged id c trace c') : Run id c trace c' := by
  induction h with
  | here => exact .here
  | goes _ now k hk hs _ ih => exact .goes ih now k hk hs
  | reads _ hr ih => exact .around ih (.reads hr)
  | changes _ n x x' hx hl hc _ ih => exact .around ih (.disturbs n x x' hx hl hc)

theorem Alike.refl (c : Client) : Alike c c := by
  refine ⟨rfl, rfl, ?_⟩
  intro s s' hs hs'
  rw [hs] at hs'
  cases hs'
  exact ⟨rfl, rfl⟩

theorem toDial_cases (c : Client) :
    (c.toDial = 0 ∧ ∃ s, c.session = some s ∧ s.alive = true) ∨
      (c.toDial = 1 ∧ ∀ s, c.session = some s → s.alive = false) := by
  unfold Client.toDial
  cases hs : c.session with
  | none => exact .inr ⟨rfl, nofun⟩
  | some s =>
    cases ha : s.alive with
    | true => exact .inl ⟨by simp [ha], s, rfl, ha⟩
    | false =>
      refine .inr ⟨by simp [ha], ?_⟩
      intro s' hs'
      cases hs'
      exact ha

theorem plan_alike (h : Alike c q) (batch : List Tick) :
    q.plan q.toDial batch = c.plan c.toDial batch := by
  rw [h.toDial]
  rcases toDial_cases c with ⟨hzero, s, hs, -⟩ | ⟨hone, -⟩
  · rcases toDial_cases q with ⟨-, s', hs', -⟩ | ⟨hone, -⟩
    · obtain ⟨hsub, hnext⟩ := h.session s s' hs hs'
      rw [hzero]
      simp only [Client.plan, hs, hs']
      exact plan_congr batch hsub hnext
    · rw [h.toDial, hzero] at hone
      cases hone
  · rw [hone]
    simp only [Client.plan, h.config]
    exact congrArg (Client.logonRequest c.config :: ·) (plan_congr batch rfl rfl)

/-! ## Where such a run can stand -/

/-- Where a call stands: on course in its first attempt, or past a wrong reply. -/
inductive Stands (config : RelayConfig) (id : Nat) (batch : List Tick) (c : Client)
    (trace : List Stage) (c' : Client) : Prop where
  | onCourse (k : Call) (hk : c'.calls.find? (·.id = id) = some k)
      (htry : ∀ st ∈ trace, st.outcome? = none) (ho : OnCourse c (dials trace) c' k.stage)
      (hleft : trace.length + k.stage.left batch ≤ 2 * batch.length + 7)
  | failed (k : Call) (e : RelayError) (hk : c'.calls.find? (·.id = id) = some k)
      (ht : k.task = .publish batch false) (he : k.stage.outcome? = some (.error e))
      (hp : ¬ Punctual c c')
  | second (c₂ : Client) (trace' : List Stage) (hr : Reachable config c₂) (hg : Grows c c₂)
      (hp : ¬ Punctual c c₂) (hnone : c₂.session = none) (h₂ : Begins id batch true c₂)
      (h : Run id c₂ trace' c') (htry : ∀ st ∈ trace', st.outcome? = none)

theorem onCourse_start (hr : Reachable config c) (hready : Ready c) :
    OnCourse c 0 c .beforeConnect := by
  rcases toDial_cases c with ⟨hzero, s, hs, ha⟩ | ⟨hone, hdead⟩
  · have hhome : c.home = s.connection := by
      simp only [Client.home, hzero, Client.seat, hs]
      rfl
    obtain ⟨log, hlog, -⟩ := hr.wired.inStep s hs
    rw [Client.logs_getElem?] at hlog
    obtain ⟨x, hx, -⟩ := Option.map_eq_some_iff.1 hlog
    refine .inr ⟨s, [], ⟨hzero.symm, hs, ha, hhome.symm, ⟨x, ?_, hready.obliging s x hs ha hx⟩, ?_⟩,
      fun _ _ => asking_nil, fun _ _ _ hf => absurd hf replied_nil⟩
    · rw [hhome]
      exact hx
    · rw [List.append_nil]
  · exact .inl ⟨hone, hready.listening, hdead⟩

/-- An attempt that can go on from a stage of its course has not ended there. -/
theorem OnCourse.outcome?_none {c'' : Client} {d now : Nat} (ho : OnCourse c d c' k.stage)
    (hs : c'.step now k = some c'') : k.stage.outcome? = none := by
  cases hst : k.stage with
  | finished r => simp [Client.step, hst] at hs
  | beforeTeardown e => rw [hst] at ho; exact ho.elim
  | tearingDown e => rw [hst] at ho; exact ho.elim
  | _ => rfl

theorem onCourse_advances {c'' : Client} {now : Nat} (hr : Reachable config c)
    (h₀ : Begins id batch false c) (h : Run id c trace c') (htry : ∀ st ∈ trace, st.outcome? = none)
    (hk : c'.calls.find? (·.id = k.id) = some k) (hid : k.id = id)
    (ho : OnCourse c (dials trace) c' k.stage) (hs : c'.step now k = some c'')
    (hin : ∀ due, Client.alarm? k = some due → now < due) :
    ∃ st, c''.calls.find? (·.id = k.id) = some { k with stage := st } ∧
      k.task = .publish batch false ∧
      ((OnCourse c (dials (trace ++ [k.stage])) c'' st ∧ st.left batch < k.stage.left batch) ∨
        (∃ e, st.outcome? = some (.error e)) ∧ ¬ Punctual c c') := by
  subst hid
  obtain ⟨k', sent, hk', ht, hw, hm⟩ := h.midway hr h₀ htry
  rw [hk] at hk'
  cases hk'
  by_cases hdial : k.stage = .dialling
  · rw [hdial] at hm
    have hsame : c'.config = c.config := (h.reachable hr).wired.same.trans hr.wired.same.symm
    obtain ⟨st, hk'', ho', hless⟩ :=
      ho.dials batch hsame hk hdial hm.2.2.2 (goes_of_step hs)
    have hone : dials (trace ++ [k.stage]) = 1 := by
      rw [dials_concat, hm.1, hdial]
      rfl
    exact ⟨st, hk'', ht, .inl ⟨by rw [hone]; exact ho', hless⟩⟩
  · have hsame : dials (trace ++ [k.stage]) = dials trace := by
      rw [dials_concat]
      cases hst : k.stage <;> first | rfl | exact absurd hst hdial
    obtain ⟨st, hk'', hcase⟩ :=
      ho.goes (h.reachable hr).wired hk ht hdial hm hin (goes_of_step hs)
    exact ⟨st, hk'', ht, by rw [hsame]; exact hcase⟩

theorem Stands.goes {c'' : Client} {now : Nat} (hr : Reachable config c)
    (h₀ : Begins id batch false c) (h : Run id c trace c')
    (hk : c'.calls.find? (·.id = id) = some k) (hs : c'.step now k = some c'')
    (hin : ∀ due, Client.alarm? k = some due → now < due)
    (hst : Stands config id batch c trace c') :
    Stands config id batch c (trace ++ [k.stage]) c'' := by
  -- a wrong reply costs the first attempt; after that the call is past help, but may try again
  have hid : k.id = id := by simpa using List.find?_some hk
  subst hid
  have hgrows : Grows c' c'' := grows_of_goes (goes_of_step hs)
  cases hst with
  | onCourse k' hk' htry ho hleft =>
    rw [hk] at hk'
    cases hk'
    obtain ⟨st, hk'', ht, ⟨ho', hless⟩ | ⟨⟨e, he⟩, hp⟩⟩ :=
      onCourse_advances hr h₀ h htry hk rfl ho hs hin
    · refine .onCourse _ hk'' (forall_concat htry (ho.outcome?_none hs)) ho' ?_
      have hlong : (trace ++ [k.stage]).length = trace.length + 1 := by simp
      change (trace ++ [k.stage]).length + st.left batch ≤ _
      omega
    · exact .failed _ e hk'' ht he fun hpun => hp (hpun.of_grows h.grows hgrows)
  | failed k' e hk' ht he hp =>
    rw [hk] at hk'
    cases hk'
    have hp' : ¬ Punctual c c'' := fun hpun => hp (hpun.of_grows h.grows hgrows)
    have htears : k.stage.tearsDown = true := by
      cases hstage : k.stage with
      | finished r => simp [Client.step, hstage] at hs
      | beforeTeardown e => rfl
      | tearingDown e => rfl
      | _ => rw [hstage] at he; cases he
    obtain ⟨-, ⟨e', hk''⟩ | ⟨hnone, hk''⟩⟩ := goes_teardown hk ht htears (goes_of_step hs)
    · exact .failed _ e' hk'' ht rfl hp'
    · have hr'' := (Run.goes h now k hk hs).reachable hr
      exact .second c'' [] hr'' (h.grows.trans hgrows) hp' hnone hk'' .here
        (List.forall_mem_nil _)
  | second c₂ trace' hr₂ hg hp hnone h₂ h' htry' =>
    by_cases hout : k.stage.outcome? = none
    · exact .second c₂ _ hr₂ hg hp hnone h₂ (.goes h' now k hk hs)
        (forall_concat htry' hout)
    · obtain ⟨k', sent, hk', ht, hw, hm⟩ := h'.midway hr₂ h₂ htry'
      rw [hk] at hk'
      cases hk'
      obtain ⟨hagain, -⟩ := hm.ends hout hs
      cases hagain

theorem Stands.around {c'' : Client} (h : Run id c trace c') (ha : Around c' c'')
    (hkeeps : ∀ k d, c'.calls.find? (·.id = id) = some k → OnCourse c d c' k.stage →
      OnCourse c d c'' k.stage) (hst : Stands config id batch c trace c') :
    Stands config id batch c trace c'' := by
  obtain ⟨-, hcalls⟩ := calm_of_around ha
  cases hst with
  | onCourse k hk htry ho hleft =>
    exact .onCourse k (by rw [hcalls]; exact hk) htry (hkeeps k _ hk ho) hleft
  | failed k e hk ht he hp =>
    exact .failed k e (by rw [hcalls]; exact hk) ht he
      fun hpun => hp (hpun.of_grows h.grows (grows_of_around ha))
  | second c₂ trace' hr₂ hg hp hnone h₂ h' htry' =>
    exact .second c₂ trace' hr₂ hg hp hnone h₂ (.around h' ha) htry'

theorem Obliged.stands (hr : Reachable config c) (h₀ : Begins id batch false c)
    (hready : Ready c) (h : Obliged id c trace c') : Stands config id batch c trace c' := by
  -- by the run; only a step of the call itself can leave the course, what goes on around it cannot
  induction h with
  | here =>
    refine .onCourse _ h₀ (List.forall_mem_nil _) (onCourse_start hr hready) ?_
    rw [List.length_nil, Nat.zero_add]
    exact Nat.le_refl _
  | goes h now k hk hs hin ih => exact ih.goes hr h₀ h.run hk hs hin
  | reads h hread ih =>
    refine ih.around h.run (.reads hread) ?_
    intro k d hk ho
    exact ho.reads (h.run.reachable hr).wired (List.mem_of_find?_eq_some hk) hread
  | changes h n x x' hx hl hc ho ih =>
    refine ih.around h.run (.disturbs n x x' hx hl hc) ?_
    intro k d hk hcourse
    exact hcourse.changes hx hl ho

/-! ## What it comes to -/

theorem home_lt (hp : ¬ Punctual c c') : c.home < c'.connections.length := by
  rcases Nat.lt_or_ge c.home c'.connections.length with hlt | hge
  · exact hlt
  · have hnil : c'.logAt c.home = [] := by
      rw [Client.logAt, List.getElem?_eq_none (by rw [c'.length_logs]; exact hge)]
      rfl
    refine absurd ?_ hp
    intro l i f hf
    rw [Client.since, hnil, List.drop_nil] at hf
    exact absurd hf replied_nil

/-- A call that succeeds without a second connection has had no wrong reply. -/
theorem Stands.punctual (hst : Stands config id batch c trace c')
    (hok : c'.result? id = some (.ok ()))
    (helse : ∀ n, n ≠ c.home → messages (c'.logAt n) = messages (c.logAt n)) : Punctual c c' := by
  cases hst with
  | onCourse k hk htry ho hleft =>
    rw [stage_of_result hk hok] at ho
    exact AtRest.punctual ho
  | failed k e hk ht he hp =>
    rw [stage_of_result hk hok] at he
    cases he
  | second c₂ trace' hr₂ hg hp hnone h₂ h' htry' =>
    -- the second attempt has written its logon on a connection of its own
    obtain ⟨k, sent, hk, -⟩ := h'.midway hr₂ h₂ htry'
    have hattempt := h'.attempt hr₂ h₂ htry' hk
    rw [stage_of_result hk hok] at hattempt
    have hdials := hattempt.dialsFirst hnone (by nofun)
    obtain ⟨new, hw, -, -, hall⟩ := hattempt.written
    have hplan := (hall rfl).1
    rw [hdials] at hw hplan
    have hnew : c₂.seat 1 = c₂.connections.length := rfl
    have hhome := home_lt hp
    have hold : c.logAt c₂.connections.length = [] :=
      List.prefix_nil.1 (logAt_new c₂ ▸ hg c₂.connections.length)
    have hhere := hw.here
    rw [hnew, helse _ (by omega), hold, logAt_new, hplan] at hhere
    cases hhere

/-- On course, a call that has not finished is under way. -/
theorem OnCourse.underway {d : Nat} (hr : Reachable config c')
    (hk : c'.calls.find? (·.id = k.id) = some k) (ha : Alone k.id c')
    (ho : OnCourse c d c' k.stage) (hs : ∀ r, k.stage ≠ .finished r) :
    Underway k.id c.home c' := by
  have hmem := List.mem_of_find?_eq_some hk
  have hgoes : Client.alarm? k = none → Underway k.id c.home c' := by
    intro hno
    refine .goes k hk ?_
    intro now
    exact Option.isSome_iff_exists.1 (goesOn hr hmem ha hs (by rw [hno]; nofun))
  cases hst : k.stage with
  | loggingOn n due =>
    rw [hst] at ho
    obtain ⟨-, rfl, x, hx, hox, -⟩ := ho
    rcases hox.next with hn | ⟨f, x', hn, -⟩
    · refine .awaits k due x hk (by rw [Client.alarm?, hst]) ?_ hx (by rw [hn])
      intro now hnow
      simp only [Client.step, hst, Client.logOn?, hx, hn]
      rw [if_neg (by omega)]
    · refine .goes k hk ?_
      intro now
      simp only [Client.step, hst, Client.logOn?, hx, hn]
      exact ⟨_, rfl⟩
  | subscribing t rest i due =>
    rw [hst] at ho
    obtain ⟨s, new, hat, -⟩ := ho
    obtain ⟨x, hx, hox⟩ := hat.obliging
    rcases hox.next with hn | ⟨f, x', hn, -⟩
    · cases hq : s.inbound with
      | nil =>
        refine .awaits k due x hk (by rw [Client.alarm?, hst]) ?_ hx (by rw [hn])
        intro now hnow
        simp only [Client.step, hst, hat.session, Client.subscribe?, Session.answer, hq,
          hat.alive, if_true]
        rw [if_neg (by omega)]
      | cons i q =>
        refine .goes k hk ?_
        intro now
        simp only [Client.step, hst, hat.session, Client.subscribe?, Session.answer, hq]
        cases i with
        | error e => exact ⟨_, rfl⟩
        | ok f =>
          simp only
          split
          · rename_i hno
            cases hno
          · exact ⟨_, rfl⟩
          · split
            · exact ⟨_, rfl⟩
            · exact ⟨_, rfl⟩
    · have hread : ∃ c'', c'.read = some c'' := by
        simp only [Client.read, hat.session, hat.alive, if_true, hat.home, hx, hn, Session.receive]
        split
        · exact ⟨_, rfl⟩
        · exact ⟨_, rfl⟩
      obtain ⟨c'', hc''⟩ := hread
      exact .reads c'' hc''
  | _ => exact hgoes (by rw [Client.alarm?, hst])

/-- The peers oblige, and may send frames that nobody asked for. The call makes a bounded number of
steps, waits for nothing but its answers, and succeeds with the messages that its batch comes to
wherever nothing unasked is sent, just when each request had its confirmation as the first frame
after it. -/
theorem publish_obliged {b : Client} (hr : Reachable config b)
    (hidle : ∀ k ∈ b.calls, ∃ r, k.stage = .finished r) (hready : Ready b) (hb : batch ≠ [])
    (hc : b.call (.publish batch false) = (id, c)) (hq : Alike c q) (h : Obliged id c trace c') :
    (Punctual c c' → trace.length ≤ 2 * batch.length + 7 ∧
      (Delivered id batch q c c' ∨ c'.result? id = none ∧ Underway id c.home c')) ∧
    (Delivered id batch q c c' → Punctual c c') := by
  have hid : b.nextCall = id := congrArg Prod.fst hc
  have hcall : (b.call (.publish batch false)).2 = c := congrArg Prod.snd hc
  have hr₁ : Reachable config c := hcall ▸ .move hr (.calls _ (by intro b hbad; cases hbad))
  have hk₀ := (call_publish hr.locked hb).2
  have halone := alone_publish hr.locked hidle hb
  rw [hcall, hid] at hk₀ halone
  have hready₁ : Ready c := by
    rw [← hcall]
    cases batch with
    | nil => exact absurd rfl hb
    | cons t rest => exact ⟨hready.listening, hready.obliging⟩
  have hstands := h.stands hr₁ hk₀ hready₁
  refine ⟨fun hp => ?_, fun hd => hstands.punctual hd.result hd.writes.elsewhere⟩
  -- no reply was wrong, so the call is still in its first attempt
  cases hstands with
  | onCourse k hk htry ho hleft =>
    refine ⟨by omega, ?_⟩
    obtain ⟨k', sent, hk', ht, hw, hm⟩ := h.run.midway hr₁ hk₀ htry
    rw [hk] at hk'
    cases hk'
    by_cases hfin : ∃ r, k.stage = .finished r
    · obtain ⟨r, hst⟩ := hfin
      rw [hst] at ho hm
      cases r with
      | error e => exact ho.elim
      | ok u =>
        obtain ⟨s, new, hat, -⟩ := ho
        refine .inl ⟨by rw [result?_eq hk, hst], ?_⟩
        rw [plan_alike hq, Client.home, ← hat.dialled, ← hm.2]
        exact hw
    · have hgoing : ∀ r, k.stage ≠ .finished r := fun r hst => hfin ⟨r, hst⟩
      have hkid : k.id = id := by simpa using List.find?_some hk
      subst hkid
      refine .inr ⟨?_, ho.underway (h.run.reachable hr₁) hk (h.run.alone halone) hgoing⟩
      rw [result?_eq hk]
      cases hst : k.stage with
      | finished r => exact absurd hst (hgoing r)
      | _ => rfl
  | failed k e hk ht he hbad => exact absurd hp hbad
  | second c₂ trace' hr₂ hg hbad hnone h₂ h' htry' =>
    exact absurd (hp.of_grows hg h'.grows) hbad

end Courses

/-! ## Two runs -/

/-- One entry of a schedule: the call goes on, the reader goes on, or the peer of a connection sends
messages where all earlier ones were read. -/
inductive Event where
  | goes (now : Nat)
  | reads
  | sends (n : Nat) (ms : List Wire.Message)

/-- What an entry of a schedule makes of a run. A peer has to begin with the welcome. -/
def Event.happens (id : Nat) : Event → List Stage × Client → Option (List Stage × Client)
  | .goes now, (trace, c) =>
    (c.calls.find? (·.id = id)).bind fun k =>
      if ∀ due ∈ Client.alarm? k, now < due then
        (c.step now k).map fun c' => (trace ++ [k.stage], c')
      else none
  | .reads, (trace, c) => c.read.map fun c' => (trace, c')
  | .sends n ms, (trace, c) =>
    c.connections[n]?.bind fun x =>
      if x.peerClosed = false ∧ x.incoming = [] ∧ ((x.log.all fun e => e.message?.isSome) = true →
          ms.head? = some (.logonResponse 8 1 "welcome")) then
        some (trace,
          c.onConnection n fun _ => { x with incoming := ms.flatMap Wire.Message.encode })
      else none

def replay (id : Nat) : List Event → List Stage × Client → Option (List Stage × Client)
  | [], r => some r
  | e :: rest, r => (e.happens id r).bind (replay id rest)

section Replays

variable {id : Nat} {c c' c'' : Client} {trace trace' : List Stage}

theorem obliging_sent {x : Connection} {ms : List Wire.Message} (hopen : x.peerClosed = false)
    (hfirst : (x.log.all fun e => e.message?.isSome) = true →
      ms.head? = some (.logonResponse 8 1 "welcome")) :
    Obliging { x with incoming := ms.flatMap Wire.Message.encode } := by
  refine ⟨hopen, ms.map Wire.Message.frame, [], ?_, ?_, ?_⟩
  · rw [List.append_nil, List.flatMap_map]
    rfl
  · intro f hf
    obtain ⟨m, -, rfl⟩ := List.mem_map.1 hf
    exact Wire.size_frame_lt m
  · intro hnone
    have hall : (x.log.all fun e => e.message?.isSome) = true := by
      rw [List.all_eq_true]
      intro e he
      cases e with
      | wrote m => rfl
      | took f => exact absurd he (hnone f)
    cases ms with
    | nil => cases hfirst hall
    | cons m rest =>
      cases hfirst hall
      exact ⟨_, _, rfl, welcomes_welcome⟩

theorem Obliged.happens {e : Event} (h : Obliged id c trace c')
    (he : e.happens id (trace, c') = some (trace', c'')) : Obliged id c trace' c'' := by
  cases e with
  | goes now =>
    obtain ⟨k, hk, he⟩ := Option.bind_eq_some_iff.1 he
    split at he
    · rename_i hin
      obtain ⟨d, hs, heq⟩ := Option.map_eq_some_iff.1 he
      cases heq
      exact .goes h now k hk hs fun due hdue => hin due hdue
    · cases he
  | reads =>
    obtain ⟨d, hr, heq⟩ := Option.map_eq_some_iff.1 he
    cases heq
    exact .reads h hr
  | sends n ms =>
    obtain ⟨x, hx, he⟩ := Option.bind_eq_some_iff.1 he
    split at he
    · rename_i hok
      cases he
      exact .changes h n x _ hx rfl rfl fun _ => obliging_sent hok.1 hok.2.2
    · cases he

theorem Obliged.replays {es : List Event} (h : Obliged id c trace c')
    (he : replay id es (trace, c') = some (trace', c'')) : Obliged id c trace' c'' := by
  induction es generalizing trace c' with
  | nil =>
    cases he
    exact h
  | cons e es ih =>
    obtain ⟨⟨mid, d⟩, hd, hrest⟩ := Option.bind_eq_some_iff.1 he
    exact ih (h.happens hd) hrest

end Replays

def strayTick : Tick := ⟨"CME", "ESZ4", "t", .epoch, .zero, .zero, none, []⟩

/-- A trade that nobody asked for. -/
def stray : Wire.Message :=
  .tradeUpdate 9000 "NQZ4" "CME" ⟨0x3ff0000000000000⟩ ⟨0x3ff0000000000000⟩ ⟨0⟩

def strayStart : Client := ((Client.new .default).call (.publish [strayTick] false)).2

/-- The client dials and logs on. The welcome of the peer and the stray trade arrive together. -/
def strayLogon : List Event :=
  [.goes 0, .goes 0, .goes 0, .sends 0 [.logonResponse 8 1 "welcome", stray], .goes 0, .goes 0]

/-- The reader takes the stray trade before the request goes out. -/
def strayTaken : List Event :=
  strayLogon ++ [.reads, .goes 0, .goes 0, .sends 0 [.subscriptionResponse 1 0 ""], .reads,
    .goes 0, .goes 0]

/-- The request goes out before the reader takes the stray trade. -/
def strayLeft : List Event := strayLogon ++ [.goes 0, .goes 0, .reads, .goes 0]

theorem obliged_of_replay (es : List Event) (p : Client → Bool)
    (h : (replay 0 es ([], strayStart)).map (fun r => p r.2) = some true) :
    ∃ trace c', Obliged 0 strayStart trace c' ∧ p c' = true := by
  obtain ⟨⟨trace, c'⟩, he, hp⟩ := Option.map_eq_some_iff.1 h
  exact ⟨trace, c', Obliged.here.replays he, hp⟩

/-- The stray trade is taken for the reply, and the call fails. So does it in the network where the
peer sends its welcome and the stray trade at once. -/
theorem unsolicited_hides_reply :
    (∃ trace c', Obliged 0 strayStart trace c' ∧
      c'.result? 0 = some (.error (.unexpectedMessage 107))) ∧
    ((Scenario.new .default [⟨some (Script.welcome ++ [.send stray.encode]), [], []⟩]).run
      [.publish [strayTick]]).map Report.got = [some (.error (.unexpectedMessage 107))] := by
  refine ⟨?_, by decide +kernel⟩
  obtain ⟨trace, c', hrun, hp⟩ := obliged_of_replay strayLeft
    (fun c => c.result? 0 = some (.error (.unexpectedMessage 107))) (by decide +kernel)
  exact ⟨trace, c', hrun, of_decide_eq_true hp⟩

/-- Where the reader has taken the stray trade in time, the call succeeds. -/
theorem publish_obliged_taken : ∃ trace c', Obliged 0 strayStart trace c' ∧
    Punctual strayStart c' ∧ Delivered 0 [strayTick] strayStart strayStart c' := by
  obtain ⟨trace, c', hrun, hp⟩ := obliged_of_replay strayTaken
    (fun c => c.result? 0 = some (.ok ()) ∧ c.connections.length = 1) (by decide +kernel)
  obtain ⟨hok, hlen⟩ := of_decide_eq_true hp
  have hnew : Reachable .default (.new .default) := .new
  have hready : Ready (.new .default) := ⟨rfl, fun s x hs => by cases hs⟩
  have hpunctual : Punctual strayStart c' := by
    have hstart : Reachable .default strayStart := .move hnew (.calls _ (by intro b h; cases h))
    have hbegins : Begins 0 [strayTick] false strayStart := rfl
    refine (hrun.stands hstart hbegins ⟨rfl, hready.obliging⟩).punctual hok ?_
    intro n hn
    have hhome : strayStart.home = 0 := rfl
    have hnil : ∀ c : Client, c.connections.length ≤ 1 → c.logAt n = [] := by
      intro c hc
      rw [Client.logAt, List.getElem?_eq_none (by rw [c.length_logs]; omega)]
      rfl
    rw [hnil c' (by omega), hnil strayStart (Nat.zero_le 1)]
  obtain ⟨-, hdelivered | ⟨hnone, -⟩⟩ := (publish_obliged hnew (fun k hk => by cases hk) hready
    (List.cons_ne_nil _ _) rfl (.refl strayStart) hrun).1 hpunctual
  · exact ⟨trace, c', hrun, hpunctual, hdelivered⟩
  · cases hnone.symm.trans hok

end Relay
end MarketFeed
