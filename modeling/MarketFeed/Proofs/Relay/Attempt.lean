import Mathlib.Data.List.Forall2
import MarketFeed.Proofs.Relay.Discipline

/-!
# MarketFeed.Proofs.Relay.Attempt

One attempt to send a batch, from the moment the call asks for the dialling lock to its success
or failure, while no other call goes on.

* `Session.plan`, `Client.plan` — what a batch comes to on a session, and in an attempt.
* `Run` — a call goes on alone; what it leaves behind is the list of its stages.
* `Writes` — what was written between two moments, and on which connection.
* `Midway` — how far the plan has got at each stage. `Run.midway`: an attempt never leaves it.
-/

namespace MarketFeed
namespace Relay

/-! ## The plan of a batch -/

/-- The messages that a batch comes to on a session, if nothing fails. -/
def Session.plan (s : Session) : List Tick → List Wire.Message
  | [] => []
  | t :: rest =>
    match s.idOf? ⟨t.symbol, t.exchange⟩ with
    | some id => trade id t :: s.plan rest
    | none => .subscribe s.nextId t.symbol t.exchange :: trade s.nextId t ::
      plan (s.takeId.2.accept ⟨t.symbol, t.exchange⟩ s.nextId) rest

/-- The connection of an attempt that begins here and has dialled `d` times: that of the session,
or a new one. -/
def Client.seat (c : Client) (d : Nat) : Nat :=
  if d = 0 then (c.session.map Session.connection).getD 0 else c.connections.length

/-- The messages of an attempt that begins here and dials `d` times. -/
def Client.plan (c : Client) (d : Nat) (batch : List Tick) : List Wire.Message :=
  if d = 0 then (c.session.map fun s => s.plan batch).getD []
  else Client.logonRequest c.config :: (Session.start c.connections.length).plan batch

def isTrade (m : Wire.Message) : Bool := m.kind = .tradeUpdate

theorem plan_congr {s s' : Session} (batch : List Tick) (hs : s'.subscriptions = s.subscriptions)
    (hn : s'.nextId = s.nextId) : s'.plan batch = s.plan batch := by
  induction batch generalizing s s' with
  | nil => rfl
  | cons t rest ih =>
    have hid : s'.idOf? ⟨t.symbol, t.exchange⟩ = s.idOf? ⟨t.symbol, t.exchange⟩ := by
      simp only [Session.idOf?, hs]
    simp only [Session.plan, hid, hn]
    split
    · rw [ih hs hn]
    · have haccept : (s'.takeId.2.accept ⟨t.symbol, t.exchange⟩ s.nextId).plan rest =
          (s.takeId.2.accept ⟨t.symbol, t.exchange⟩ s.nextId).plan rest :=
        ih (by simp only [Session.takeId, Session.accept, hs])
          (by simp only [Session.takeId, Session.accept, hn])
      rw [haccept]

theorem plan_accept_congr {s s' : Session} (rest : List Tick) (l : Listing) (id : UInt32)
    (hs : s'.subscriptions = s.subscriptions) (hn : s'.nextId = s.nextId) :
    (s'.accept l id).plan rest = (s.accept l id).plan rest :=
  plan_congr rest (by simp only [Session.accept, hs]) (by simp only [Session.accept, hn])

theorem plan_known {s : Session} {t : Tick} {id : UInt32}
    (h : s.idOf? ⟨t.symbol, t.exchange⟩ = some id) (rest : List Tick) :
    s.plan (t :: rest) = trade id t :: s.plan rest := by
  rw [Session.plan, h]

theorem plan_unknown {s s' : Session} {t : Tick} (h : s.idOf? ⟨t.symbol, t.exchange⟩ = none)
    (hs : s'.subscriptions = s.subscriptions ++ [(⟨t.symbol, t.exchange⟩, s.nextId)])
    (hn : s'.nextId = s.nextId + 1) (rest : List Tick) :
    s.plan (t :: rest) =
      .subscribe s.nextId t.symbol t.exchange :: trade s.nextId t :: s'.plan rest := by
  rw [Session.plan, h]
  simp only
  rw [plan_congr (s := s.takeId.2.accept ⟨t.symbol, t.exchange⟩ s.nextId) rest hs hn]

/-- The trades of a plan are those of the batch, in order. -/
theorem trades_plan (s : Session) (batch : List Tick) :
    List.Forall₂ (fun m t => ∃ id, m = trade id t) ((s.plan batch).filter isTrade) batch := by
  induction batch generalizing s with
  | nil => exact .nil
  | cons t rest ih =>
    have htrade : ∀ id, isTrade (trade id t) = true := fun _ => rfl
    rw [Session.plan]
    split
    · rename_i id _
      rw [List.filter_cons_of_pos (htrade id)]
      exact .cons ⟨id, rfl⟩ (ih s)
    · rw [List.filter_cons_of_neg (by nofun), List.filter_cons_of_pos (htrade _)]
      exact .cons ⟨_, rfl⟩ (ih _)

theorem trades_of_prefix {s : Session} {batch : List Tick} {new : List Wire.Message}
    (h : new <+: s.plan batch) : List.Forall₂ (fun m t => ∃ id, m = trade id t)
      (new.filter isTrade) (batch.take (new.filter isTrade).length) := by
  have hpre := List.prefix_iff_eq_take.1 (h.filter isTrade)
  have htake := List.forall₂_take (new.filter isTrade).length (trades_plan s batch)
  rwa [← hpre] at htake

/-! ## What was written -/

def Client.logAt (c : Client) (n : Nat) : List Exchange := c.logs[n]?.getD []

/-- Between two moments nothing was written but `new` on connection `n`. -/
structure Writes (c c' : Client) (n : Nat) (new : List Wire.Message) : Prop where
  here : messages (c'.logAt n) = messages (c.logAt n) ++ new
  elsewhere : ∀ m, m ≠ n → messages (c'.logAt m) = messages (c.logAt m)

namespace Writes

variable {c c' c'' : Client} {n : Nat} {new more : List Wire.Message}

theorem nothing (h : ∀ m, messages (c'.logAt m) = messages (c.logAt m)) (n : Nat) :
    Writes c c' n [] :=
  ⟨by rw [List.append_nil]; exact h n, fun m _ => h m⟩

theorem of_logs (h : c'.logs = c.logs) (n : Nat) : Writes c c' n [] :=
  nothing (fun m => by simp only [Client.logAt, h]) n

theorem at_nil (h : Writes c c' n []) (m : Nat) : messages (c'.logAt m) = messages (c.logAt m) := by
  by_cases hm : m = n
  · have hn := h.here
    rw [List.append_nil] at hn
    rw [hm, hn]
  · exact h.elsewhere m hm

theorem trans (h : Writes c c' n new) (h' : Writes c' c'' n more) : Writes c c'' n (new ++ more) :=
  ⟨by rw [h'.here, h.here, List.append_assoc],
    fun m hm => (h'.elsewhere m hm).trans (h.elsewhere m hm)⟩

theorem congr (h : Writes c c' n new) (hl : c''.logs = c'.logs) : Writes c c'' n new := by
  have hall := h.trans (of_logs hl n)
  rwa [List.append_nil] at hall

theorem of_set {log log' : List Exchange} (hlog : c.logs[n]? = some log)
    (hl : c'.logs = c.logs.set n log') (hm : messages log' = messages log ++ new) :
    Writes c c' n new where
  here := by
    simp only [Client.logAt, hl, hlog, List.getElem?_set_self (List.getElem?_eq_some_iff.1 hlog).1]
    exact hm
  elsewhere m hmn := by
    simp only [Client.logAt, hl, List.getElem?_set_ne (Ne.symm hmn)]

theorem of_concat {log : List Exchange} (hl : c'.logs = c.logs ++ [log]) :
    Writes c c' c.connections.length (messages log) where
  here := by
    simp only [Client.logAt, hl, ← c.length_logs, List.getElem?_concat_length,
      List.getElem?_eq_none (Nat.le_refl _)]
    rfl
  elsewhere m hmn := by
    have hlen := c.length_logs
    by_cases hlt : m < c.logs.length
    · simp only [Client.logAt, hl, List.getElem?_append_left hlt]
    · simp only [Client.logAt, hl, List.getElem?_eq_none (Nat.le_of_not_lt hlt)]
      rw [List.getElem?_eq_none]
      simp only [List.length_append, List.length_singleton]
      omega

end Writes

/-! ## A call on its own -/

/-- How the attempt has ended, if it has. -/
def Stage.outcome? : Stage → Option (Except RelayError Unit)
  | .beforeTeardown e | .tearingDown e => some (.error e)
  | .finished r => some r
  | _ => none

def Stage.dials : Stage → Bool
  | .dialling => true
  | _ => false

def dials (trace : List Stage) : Nat := trace.countP Stage.dials

/-- A call goes on, and no other does; the list has the stages from which it went on. The reader
and the peers do as they please. -/
inductive Run (id : Nat) (c : Client) : List Stage → Client → Prop where
  | here : Run id c [] c
  | goes {trace : List Stage} {c' c'' : Client} (h : Run id c trace c') (now : Nat) (k : Call)
      (hk : c'.calls.find? (·.id = id) = some k) (hs : c'.step now k = some c'') :
      Run id c (trace ++ [k.stage]) c''
  | around {trace : List Stage} {c' c'' : Client} (h : Run id c trace c') (ha : Around c' c'') :
      Run id c trace c''

theorem Run.reachable {config : RelayConfig} {id : Nat} {c c' : Client} {trace : List Stage}
    (h : Run id c trace c') (hr : Reachable config c) : Reachable config c' := by
  induction h with
  | here => exact hr
  | goes _ now k hk hs ih =>
    have hid : k.id = id := by simpa using List.find?_some hk
    subst hid
    exact .move ih (.goes now k hk hs)
  | around _ ha ih => exact .move ih (.around ha)

theorem find?_restage {calls : List Call} {id : Nat} {k : Call}
    (h : calls.find? (·.id = id) = some k) (st : Stage) :
    (restage calls id st).find? (·.id = id) = some { k with stage := st } :=
  find?_update_self Call.id (fun _ h => h) h

/-- Nothing was dialled or written, and the session is the same but for its queue. -/
structure Calm (c c' : Client) : Prop where
  length : c'.connections.length = c.connections.length
  writes : ∀ n, messages (c'.logAt n) = messages (c.logAt n)
  session : ∀ s', c'.session = some s' → ∃ s, c.session = some s ∧
    s'.connection = s.connection ∧ s'.subscriptions = s.subscriptions ∧ s'.nextId = s.nextId
  none_iff : c'.session = none ↔ c.session = none

theorem receives_messages {s s' : Session} {log log' : List Exchange}
    (h : Receives s log s' log') : messages log' = messages log := by
  cases h with
  | beats f => exact messages_took
  | queues f => exact messages_took
  | ends => rfl

theorem Receives.nextId {s s' : Session} {log log' : List Exchange}
    (h : Receives s log s' log') : s'.nextId = s.nextId := by
  cases h with
  | beats => rfl
  | queues => exact enqueue_nextId s _
  | ends => exact enqueue_nextId _ _

theorem calm_of_same {c c' : Client} (hs : c'.session = c.session)
    (hc : c'.connections = c.connections) : Calm c c' where
  length := by rw [hc]
  writes n := by simp only [Client.logAt, Client.logs, hc]
  session s' hs' := ⟨s', by rw [← hs]; exact hs', rfl, rfl, rfl⟩
  none_iff := by rw [hs]

theorem Calm.trans {c c' c'' : Client} (h : Calm c c') (h' : Calm c' c'') : Calm c c'' where
  length := h'.length.trans h.length
  writes n := (h'.writes n).trans (h.writes n)
  session s'' hs'' := by
    obtain ⟨s', hs', hc', hsub', hn'⟩ := h'.session s'' hs''
    obtain ⟨s, hs, hc, hsub, hn⟩ := h.session s' hs'
    exact ⟨s, hs, hc'.trans hc, hsub'.trans hsub, hn'.trans hn⟩
  none_iff := h'.none_iff.trans h.none_iff

/-- The reader and the peers write nothing and start no call. -/
theorem calm_of_around {c c' : Client} (h : Around c c') : Calm c c' ∧ c'.calls = c.calls := by
  cases h with
  | reads hr =>
    obtain ⟨s, s', log, log', hs, ha, hlog, hrec, hs', hl, hc, hcalls⟩ := receives_of_read hr
    have hw : Writes c c' s.connection [] :=
      .of_set hlog hl (by rw [receives_messages hrec, List.append_nil])
    refine ⟨⟨?_, hw.at_nil, ?_, ?_⟩, hcalls⟩
    · rw [← c'.length_logs, ← c.length_logs, hl, List.length_set]
    · intro t ht
      rw [hs'] at ht
      cases ht
      exact ⟨s, hs, hrec.connection, hrec.subscriptions, hrec.nextId⟩
    · rw [hs, hs']
      exact ⟨nofun, nofun⟩
  | disturbs n x x' hx hl hc =>
    have hlogs : (c.onConnection n fun _ => x').logs = c.logs := by
      refine Client.onConnection_logs_of_log ?_
      intro y hy
      rw [hx] at hy
      cases hy
      exact hl
    exact ⟨⟨List.length_modify _ _ _, (Writes.of_logs hlogs 0).at_nil,
      fun s hs => ⟨s, hs, rfl, rfl, rfl⟩, Iff.rfl⟩, rfl⟩
  | listens b => exact ⟨⟨rfl, fun _ => rfl, fun s hs => ⟨s, hs, rfl, rfl, rfl⟩, Iff.rfl⟩, rfl⟩

/-! ## How far an attempt has got -/

/-- The attempt sends on its session, where the plan goes on with `tail`. -/
def Seated (batch : List Tick) (c : Client) (d : Nat) (c' : Client) (new : List Wire.Message)
    (tail : Session → List Wire.Message) : Prop :=
  ∃ s, c'.session = some s ∧ s.connection = c.seat d ∧ c.plan d batch = new ++ tail s

/-- The attempt has dialled once at most, and not without need. -/
def Dialled (c : Client) (d : Nat) : Prop := d ≤ 1 ∧ (c.session = none → d = 1)

/-- How far an attempt from `c` has got at a stage, when it has dialled `d` times and written
`new`. -/
def Midway (batch : List Tick) (again : Bool) (c : Client) (d : Nat) (c' : Client)
    (new : List Wire.Message) : Stage → Prop
  | .beforeConnect | .beforeInspection => d = 0 ∧ new = [] ∧ Calm c c'
  | .dialling => d = 0 ∧ new = [] ∧ c'.session = none ∧
    c'.connections.length = c.connections.length
  | .loggingOn n _ | .beforeInstallation n =>
    d = 1 ∧ n = c.connections.length ∧ new = [Client.logonRequest c.config]
  | .beforeSending => Dialled c d ∧ Seated batch c d c' new fun s => s.plan batch
  | .sending rest => Dialled c d ∧ Seated batch c d c' new fun s => s.plan rest
  | .subscribing t rest id _ => Dialled c d ∧
    Seated batch c d c' new fun s => trade id t :: (s.accept ⟨t.symbol, t.exchange⟩ id).plan rest
  | .beforeTeardown e => Dialled c d ∧ new <+: c.plan d batch ∧ again = false ∧
    e.isConnectionError = true
  | .finished (.error e) => Dialled c d ∧ new <+: c.plan d batch ∧
    (again = true ∨ e.isConnectionError = false)
  | .finished (.ok ()) => Dialled c d ∧ new = c.plan d batch
  | .tearingDown _ | .beforeClose | .closing => False

section Midway

variable {config : RelayConfig} {batch : List Tick} {again : Bool} {c c' c'' : Client} {d : Nat}
  {new : List Wire.Message} {now : Nat} {k : Call}

theorem Seated.calm {tail : Session → List Wire.Message} (h : Seated batch c d c' new tail)
    (hc : Calm c' c'') (htail : ∀ s s' : Session, s'.subscriptions = s.subscriptions →
      s'.nextId = s.nextId → tail s' = tail s) : Seated batch c d c'' new tail := by
  obtain ⟨s, hs, hn, hp⟩ := h
  cases hs'' : c''.session with
  | none =>
    have hnone := hc.none_iff.1 hs''
    rw [hs] at hnone
    cases hnone
  | some s'' =>
    obtain ⟨s', hs', hconn, hsub, hnext⟩ := hc.session s'' hs''
    rw [hs] at hs'
    cases hs'
    exact ⟨s'', hs'', hconn.trans hn, by rw [htail s s'' hsub hnext]; exact hp⟩

/-- What happens around the call moves the attempt neither on nor back. -/
theorem Midway.calm {st : Stage} (h : Midway batch again c d c' new st) (hc : Calm c' c'') :
    Midway batch again c d c'' new st := by
  cases st with
  | beforeConnect => exact ⟨h.1, h.2.1, h.2.2.trans hc⟩
  | beforeInspection => exact ⟨h.1, h.2.1, h.2.2.trans hc⟩
  | dialling => exact ⟨h.1, h.2.1, hc.none_iff.2 h.2.2.1, hc.length.trans h.2.2.2⟩
  | beforeSending => exact ⟨h.1, h.2.calm hc fun s s' => plan_congr batch⟩
  | sending rest => exact ⟨h.1, h.2.calm hc fun s s' => plan_congr rest⟩
  | subscribing t rest id due =>
    refine ⟨h.1, h.2.calm hc ?_⟩
    intro s s' hsub hnext
    exact congrArg (trade id t :: ·) (plan_accept_congr rest _ id hsub hnext)
  | finished r =>
    cases r with
    | ok u => exact h
    | error e => exact h
  | _ => exact h

theorem Seated.prefix_plan {tail : Session → List Wire.Message} (h : Seated batch c d c' new tail) :
    new <+: c.plan d batch := by
  obtain ⟨s, -, -, hp⟩ := h
  exact ⟨tail s, hp.symm⟩

/-- However an attempt fails, it is tried again just when it was the first and the connection
is to blame. -/
theorem midway_failure (ht : k.task = .publish batch again) (hd : Dialled c d)
    (hp : new <+: c.plan d batch) (e : RelayError) :
    Midway batch again c d c' new (k.failure e) := by
  unfold Call.failure Call.retries
  rw [ht]
  cases again with
  | false =>
    cases he : e.isConnectionError with
    | false => exact ⟨hd, hp, .inr he⟩
    | true => exact ⟨hd, hp, rfl, he⟩
  | true => exact ⟨hd, hp, .inl rfl⟩

theorem readiness_publish (ht : k.task = .publish batch again) : k.readiness = .beforeSending := by
  unfold Call.readiness
  rw [ht]

theorem midway_readiness (ht : k.task = .publish batch again) (hd : Dialled c d)
    (hs : Seated batch c d c' new fun s => s.plan batch) :
    Midway batch again c d c' new k.readiness := by
  rw [readiness_publish ht]
  exact ⟨hd, hs⟩

/-- The attempt has found a live session: it stays on that connection. -/
theorem seated_found (batch : List Tick) {s : Session} (hc : Calm c c') (hs : c'.session = some s) :
    Dialled c 0 ∧ Seated batch c 0 c' [] fun s => s.plan batch := by
  obtain ⟨s₀, hs₀, hconn, hsub, hnext⟩ := hc.session s hs
  refine ⟨⟨Nat.zero_le 1, fun hnone => ?_⟩, s, hs, ?_, ?_⟩
  · rw [hs₀] at hnone
    cases hnone
  · simp only [Client.seat, hs₀]
    exact hconn
  · simp only [Client.plan, hs₀]
    exact (plan_congr batch hsub hnext).symm

theorem midway_sending {st : Stage} (hs : st.isSending = true)
    (hm : Midway batch again c d c' new st) : Dialled c d ∧ new <+: c.plan d batch := by
  cases st with
  | beforeSending => exact ⟨hm.1, hm.2.prefix_plan⟩
  | sending rest => exact ⟨hm.1, hm.2.prefix_plan⟩
  | subscribing t rest id due => exact ⟨hm.1, hm.2.prefix_plan⟩
  | _ => cases hs

theorem Writes.took {n m : Nat} {x x' : Connection} (h : Writes c c' m new)
    (hx : c'.connections[n]? = some x) (hn : x' = x ∨ x' = x.next.2)
    (hl : c''.logs = (c'.onConnection n fun _ => x').logs) : Writes c c'' m new := by
  have hmsg : messages x'.log = messages x.log := by
    rcases hn with rfl | rfl
    · rfl
    · rcases log_next x with hnext | ⟨f, hnext⟩
      · rw [hnext]
      · rw [hnext, messages_took]
  have hset : Writes c' c'' n [] :=
    .of_set (log_mem hx) (hl.trans (c'.onConnection_logs n x')) (by rw [hmsg, List.append_nil])
  have hall := h.trans (.nothing hset.at_nil m)
  rwa [List.append_nil] at hall

theorem Writes.wrote {n m : Nat} {x x' : Connection} {w : Wire.Message} (h : Writes c c' m new)
    (hx : c'.connections[n]? = some x) (hw : x.write w = .ok x') (hn : n = m)
    (hl : c''.logs = (c'.onConnection n fun _ => x').logs) : Writes c c'' m (new ++ [w]) := by
  subst hn
  refine h.trans (.of_set (log_mem hx) (hl.trans (c'.onConnection_logs n x')) ?_)
  rw [write_log hw, messages_wrote]

/-- Dialling brings the attempt to its own connection. -/
theorem Midway.dials (hc : Wired config c) (h' : Wired config c')
    (hk : c'.calls.find? (·.id = k.id) = some k) (ht : k.task = .publish batch again)
    (hs : k.stage = .dialling) (hw : Writes c c' (c.seat d) new)
    (hm : Midway batch again c d c' new k.stage) (hg : Goes now k c' c'') :
    ∃ st new', c''.calls.find? (·.id = k.id) = some { k with stage := st } ∧ d = 0 ∧
      Writes c c'' (c.seat 1) new' ∧ Midway batch again c 1 c'' new' st := by
  rw [hs] at hm
  obtain ⟨rfl, rfl, -, hlen⟩ := hm
  have hw₁ : Writes c c' (c.seat 1) [] := .nothing hw.at_nil _
  cases hg with
  | refused =>
    obtain ⟨hcalls, -, -, hconns⟩ :=
      failAttempt_spec ({ c' with connecting := false }.leaveDial k.id) k (.io .refused)
    refine ⟨k.failure (.io .refused), [], ?_, rfl, hw₁.congr (logs_congr hconns),
      midway_failure ht ⟨Nat.le_refl 1, fun _ => rfl⟩ List.nil_prefix _⟩
    change (Client.failAttempt _ k _).calls.find? _ = _
    rw [hcalls]
    exact find?_restage hk _
  | dials =>
    have hlogs : ∀ due, (Client.setStage
        { c' with connections := c'.connections ++
            [{ Connection.fresh with log := [.wrote (Client.logonRequest c'.config)] }] }
        k.id (.loggingOn c'.connections.length due)).logs =
        c'.logs ++ [[Exchange.wrote (Client.logonRequest c.config)]] := by
      intro due
      rw [hc.same, ← h'.same]
      exact List.map_append
    have hseat : c.seat 1 = c'.connections.length := hlen.symm
    refine ⟨.loggingOn c'.connections.length (c'.deadline now), [Client.logonRequest c.config],
      find?_restage hk _, rfl, ?_, rfl, hlen, rfl⟩
    rw [hseat] at hw₁ ⊢
    exact hw₁.trans (.of_concat (hlogs _))
  | failsSending s' e hsend =>
    rw [hs] at hsend
    cases hsend
  | _ =>
    rename k.stage = _ => hother
    rw [hs] at hother
    cases hother

/-- Any other step keeps the attempt where it is. -/
theorem Midway.goes (h' : Wired config c') (hk : c'.calls.find? (·.id = k.id) = some k)
    (ht : k.task = .publish batch again) (hns : k.stage ≠ .dialling)
    (htry : k.stage.outcome? = none) (hw : Writes c c' (c.seat d) new)
    (hm : Midway batch again c d c' new k.stage) (hg : Goes now k c' c'') :
    ∃ st new', c''.calls.find? (·.id = k.id) = some { k with stage := st } ∧
      Writes c c'' (c.seat d) new' ∧ Midway batch again c d c'' new' st := by
  cases hg with
  | enters hs =>
    rw [hs] at hm
    exact ⟨.beforeInspection, new, find?_restage hk _, hw.congr rfl,
      hm.1, hm.2.1, hm.2.2.trans (calm_of_same rfl rfl)⟩
  | findsLive s hs hl hs' =>
    -- since the attempt began nothing has changed but the queue, so the session is the one of `c`
    rw [hs] at hm
    obtain ⟨rfl, rfl, hcalm⟩ := hm
    obtain ⟨hcalls, -, hsession, hconns⟩ := connected_spec c' k
    obtain ⟨hd, s₀, hs₀, hseat, hplan⟩ := seated_found batch hcalm hs'
    refine ⟨k.readiness, [], ?_, hw.congr (logs_congr hconns),
      midway_readiness ht hd ⟨s₀, hsession.trans hs₀, hseat, hplan⟩⟩
    rw [hcalls]
    exact find?_restage hk _
  | findsNone hs =>
    rw [hs] at hm
    obtain ⟨rfl, rfl, hcalm⟩ := hm
    obtain ⟨xs, hd⟩ := c'.dropSession_spec
    have hlogs := c'.dropSession_logs
    refine ⟨.dialling, [], ?_, hw.congr hlogs, rfl, rfl, c'.dropSession_session, ?_⟩
    · rw [hd]
      exact find?_restage hk _
    · change c'.dropSession.connections.length = _
      rw [← c'.dropSession.length_logs, hlogs, c'.length_logs]
      exact hcalm.length
  | refused hs => exact absurd hs hns
  | dials hs => exact absurd hs hns
  | hearsBeat n due x x' f b hs hx hn =>
    refine ⟨k.stage, new, hk, hw.took hx (.inr (by rw [hn])) rfl, ?_⟩
    rw [hs] at hm ⊢
    exact hm
  | welcomed n due x x' f v text hs hx hn =>
    rw [hs] at hm
    exact ⟨.beforeInstallation n, new, find?_restage hk _,
      hw.took hx (.inr (by rw [hn])) rfl, hm⟩
  | failsLogon n due x x' e hs hx hn =>
    rw [hs] at hm
    obtain ⟨rfl, -, rfl⟩ := hm
    refine ⟨k.failure e, _, ?_, hw.took hx hn (failLogon_logs _ k n e),
      midway_failure ht ⟨Nat.le_refl 1, fun _ => rfl⟩ ⟨_, rfl⟩ e⟩
    rw [failLogon_calls]
    exact find?_restage hk _
  | installs n hs hl =>
    have hfit := h'.fits k (List.mem_of_find?_eq_some hk)
    rw [hs] at hm hfit
    obtain ⟨rfl, rfl, rfl⟩ := hm
    obtain ⟨hcalls, -, hsession, hconns⟩ := connected_spec
      { c' with session := some (.start c.connections.length) } k
    rw [Client.dropSession_of_none hfit.1]
    refine ⟨k.readiness, _, ?_, hw.congr (logs_congr hconns),
      midway_readiness ht ⟨Nat.le_refl 1, fun _ => rfl⟩ ⟨_, hsession, rfl, rfl⟩⟩
    rw [hcalls]
    exact find?_restage hk _
  | begins s b a hs hl hs' ha hb =>
    rw [hs] at hm
    rw [ht] at hb
    cases hb
    exact ⟨.sending batch, new, find?_restage hk _, hw.congr rfl, hm⟩
  | completes s hs hs' =>
    rw [hs] at hm
    obtain ⟨hd, s₀, hs₀, hseat, hplan⟩ := hm
    refine ⟨.finished (.ok ()), new, find?_restage hk _, hw.congr rfl, hd, ?_⟩
    rw [hplan]
    exact (List.append_nil new).symm
  | trades s t rest id x x' hs hs' hi hx hwr =>
    rw [hs] at hm
    obtain ⟨hd, s₀, hs₀, hseat, hplan⟩ := hm
    rw [hs'] at hs₀
    cases hs₀
    refine ⟨.sending rest, new ++ [trade id t], find?_restage hk _, hw.wrote hx hwr hseat rfl,
      hd, s, hs', hseat, ?_⟩
    rw [hplan, List.append_assoc]
    exact congrArg (new ++ ·) (plan_known hi rest)
  | asks s t rest x x' hs hs' hi hq hx hwr =>
    rw [hs] at hm
    obtain ⟨hd, s₀, hs₀, hseat, hplan⟩ := hm
    rw [hs'] at hs₀
    cases hs₀
    refine ⟨.subscribing t rest s.nextId _, new ++ [.subscribe s.nextId t.symbol t.exchange],
      find?_restage hk _, hw.wrote hx hwr hseat rfl, hd, _, rfl, hseat, ?_⟩
    rw [hplan, List.append_assoc]
    exact congrArg (new ++ ·) (plan_unknown hi rfl rfl rest)
  | isConfirmed s t rest id due f q x x' hs hs' hq hj hx hwr =>
    rw [hs] at hm
    obtain ⟨hd, s₀, hs₀, hseat, hplan⟩ := hm
    rw [hs'] at hs₀
    cases hs₀
    refine ⟨.sending rest, new ++ [trade id t], find?_restage hk _, hw.wrote hx hwr hseat rfl,
      hd, _, rfl, hseat, ?_⟩
    rw [hplan, List.append_assoc]
    exact congrArg (fun l => new ++ trade id t :: l) (plan_congr rest rfl rfl)
  | isRejected s t rest id due f q reason hs hs' hq hj =>
    rw [hs] at hm
    obtain ⟨hd, hseated⟩ := hm
    exact ⟨.finished (.error _), new, find?_restage hk _, hw.congr rfl, hd, hseated.prefix_plan,
      .inr rfl⟩
  | failsSending s' e hs hl hs' he =>
    obtain ⟨hd, hpre⟩ := midway_sending hs hm
    refine ⟨k.failure e, new, ?_, hw.congr (failSending_logs { c' with session := s' } k e),
      midway_failure ht hd hpre e⟩
    rw [failSending_calls]
    exact find?_restage hk _
  | retires e hs => rw [hs] at htry; cases htry
  | restarts e task hs => rw [hs] at htry; cases htry
  | prepares hs => rw [hs] at hm; exact hm.elim
  | closes hs => rw [hs] at hm; exact hm.elim

end Midway

/-! ## A whole attempt -/

/-- The message is the trade of a tick, under a number confirmed for its listing. -/
def Carries (log : List Exchange) (m : Wire.Message) (t : Tick) : Prop :=
  ∃ id, m = trade id t ∧ Answered log ⟨t.symbol, t.exchange⟩ id

/-- What an attempt to send `batch` comes to, which began at `c`, has passed through the stages of
`trace` and has the outcome `o`, or none yet. -/
structure Attempt (id : Nat) (batch : List Tick) (c : Client) (trace : List Stage) (c' : Client)
    (o : Option (Except RelayError Unit)) : Prop where
  run : Run id c trace c'
  outcome : ∃ k, c'.calls.find? (·.id = id) = some k ∧ k.stage.outcome? = o
  dialsOnce : dials trace ≤ 1
  /-- Without a session it cannot end before it has dialled. -/
  dialsFirst : c.session = none → o ≠ none → dials trace = 1
  /-- It writes on one connection, in the order of the plan, and all of it if it succeeds. The
  trades are those of the first ticks of the batch. -/
  written : ∃ new, Writes c c' (c.seat (dials trace)) new ∧ new <+: c.plan (dials trace) batch ∧
    List.Forall₂ (Carries (c'.logAt (c.seat (dials trace)))) (new.filter isTrade)
      (batch.take (new.filter isTrade).length) ∧
    (o = some (.ok ()) →
      new = c.plan (dials trace) batch ∧ (new.filter isTrade).length = batch.length)

section Attempts

variable {config : RelayConfig} {batch : List Tick} {again : Bool} {id : Nat} {c c' : Client}
  {trace : List Stage}

theorem dials_concat (trace : List Stage) (st : Stage) :
    dials (trace ++ [st]) = dials trace + if st.dials then 1 else 0 := by
  rw [dials, List.countP_append, List.countP_singleton]
  rfl

/-- The call begins an attempt. -/
def Begins (id : Nat) (batch : List Tick) (again : Bool) (c : Client) : Prop :=
  c.calls.find? (·.id = id) = some ⟨id, .publish batch again, .beforeConnect⟩

/-- A call that begins an attempt stays midway while it tries. -/
theorem Run.midway (hr : Reachable config c) (h₀ : Begins id batch again c) (h : Run id c trace c')
    (htry : ∀ st ∈ trace, st.outcome? = none) :
    ∃ k new, c'.calls.find? (·.id = id) = some k ∧ k.task = .publish batch again ∧
      Writes c c' (c.seat (dials trace)) new ∧
      Midway batch again c (dials trace) c' new k.stage := by
  -- by the run; the connection of the attempt is fixed only when it dials, hence the two cases
  induction h with
  | here =>
    exact ⟨_, [], h₀, rfl, .of_logs rfl _, rfl, rfl, calm_of_same rfl rfl⟩
  | @goes trace c' c'' hrun now k hk hs ih =>
    obtain ⟨k', new, hk', ht, hw, hm⟩ := ih (fun st hst => htry st (List.mem_append_left _ hst))
    rw [hk] at hk'
    cases hk'
    have hid : k.id = id := by simpa using List.find?_some hk
    subst hid
    have hstage := htry k.stage (by simp)
    have hwired := (hrun.reachable hr).wired
    by_cases hdial : k.stage = .dialling
    · obtain ⟨st, new', hk'', hzero, hw', hm'⟩ :=
        hm.dials hr.wired hwired hk ht hdial hw (goes_of_step hs)
      have hone : dials (trace ++ [k.stage]) = 1 := by
        rw [dials_concat, hzero, hdial]
        rfl
      rw [hone]
      exact ⟨_, new', hk'', ht, hw', hm'⟩
    · obtain ⟨st, new', hk'', hw', hm'⟩ := hm.goes hwired hk ht hdial hstage hw (goes_of_step hs)
      have hsame : dials (trace ++ [k.stage]) = dials trace := by
        rw [dials_concat]
        cases hst : k.stage <;> first | rfl | exact absurd hst hdial
      rw [hsame]
      exact ⟨_, new', hk'', ht, hw', hm'⟩
  | around _ ha ih =>
    obtain ⟨k, new, hk, ht, hw, hm⟩ := ih htry
    obtain ⟨hcalm, hcalls⟩ := calm_of_around ha
    refine ⟨k, new, by rw [hcalls]; exact hk, ht, ?_, hm.calm hcalm⟩
    have hall := hw.trans (.nothing hcalm.writes _)
    rwa [List.append_nil] at hall

theorem Wired.orderly_logAt (h : Wired config c) (n : Nat) : Orderly config (c.logAt n) := by
  unfold Client.logAt
  cases hlog : c.logs[n]? with
  | none => exact .nil
  | some log => exact h.orderly log (List.mem_of_getElem? hlog)

/-- The trades of a part of an attempt's plan are those of the first ticks. -/
theorem trades_of_plan {d : Nat} {new : List Wire.Message} (h : new <+: c.plan d batch) :
    List.Forall₂ (fun m t => ∃ id, m = trade id t) (new.filter isTrade)
      (batch.take (new.filter isTrade).length) := by
  unfold Client.plan at h
  split at h
  · cases hs : c.session with
    | none =>
      rw [hs] at h
      rw [List.prefix_nil.1 h]
      exact .nil
    | some s =>
      rw [hs] at h
      exact trades_of_prefix h
  · cases new with
    | nil => exact .nil
    | cons m new =>
      obtain ⟨rfl, hrest⟩ := List.cons_prefix_cons.1 h
      rw [List.filter_cons_of_neg (by nofun)]
      exact trades_of_prefix hrest

theorem length_trades_plan {d : Nat} (hd : Dialled c d) :
    ((c.plan d batch).filter isTrade).length = batch.length := by
  unfold Client.plan
  split
  · rename_i hzero
    cases hs : c.session with
    | none =>
      have hone := hd.2 hs
      omega
    | some s => exact (trades_plan s batch).length_eq
  · rw [List.filter_cons_of_neg (by nofun)]
    exact (trades_plan _ batch).length_eq

/-- What a stage says of the plan, whether or not the attempt has ended there. -/
theorem midway_outcome {d : Nat} {new : List Wire.Message} {st : Stage}
    (hm : Midway batch again c d c' new st) : d ≤ 1 ∧ new <+: c.plan d batch ∧
      (st.outcome? ≠ none → Dialled c d) ∧
      (st.outcome? = some (.ok ()) → new = c.plan d batch) := by
  cases st with
  | beforeConnect =>
    obtain ⟨rfl, rfl, -⟩ := hm
    exact ⟨Nat.zero_le 1, List.nil_prefix, nofun, nofun⟩
  | beforeInspection =>
    obtain ⟨rfl, rfl, -⟩ := hm
    exact ⟨Nat.zero_le 1, List.nil_prefix, nofun, nofun⟩
  | dialling =>
    obtain ⟨rfl, rfl, -⟩ := hm
    exact ⟨Nat.zero_le 1, List.nil_prefix, nofun, nofun⟩
  | loggingOn n due =>
    obtain ⟨rfl, -, rfl⟩ := hm
    exact ⟨Nat.le_refl 1, ⟨_, rfl⟩, nofun, nofun⟩
  | beforeInstallation n =>
    obtain ⟨rfl, -, rfl⟩ := hm
    exact ⟨Nat.le_refl 1, ⟨_, rfl⟩, nofun, nofun⟩
  | beforeSending => exact ⟨hm.1.1, hm.2.prefix_plan, nofun, nofun⟩
  | sending rest => exact ⟨hm.1.1, hm.2.prefix_plan, nofun, nofun⟩
  | subscribing t rest id due => exact ⟨hm.1.1, hm.2.prefix_plan, nofun, nofun⟩
  | beforeTeardown e => exact ⟨hm.1.1, hm.2.1, fun _ => hm.1, nofun⟩
  | finished r =>
    cases r with
    | ok u => exact ⟨hm.1.1, hm.2 ▸ List.prefix_refl _, fun _ => hm.1, fun _ => hm.2⟩
    | error e => exact ⟨hm.1.1, hm.2.1, fun _ => hm.1, nofun⟩
  | _ => exact hm.elim

theorem Run.attempt (hr : Reachable config c) (h₀ : Begins id batch again c) (h : Run id c trace c')
    (htry : ∀ st ∈ trace, st.outcome? = none) {k : Call}
    (hk : c'.calls.find? (·.id = id) = some k) :
    Attempt id batch c trace c' k.stage.outcome? := by
  obtain ⟨k', new, hk', ht, hw, hm⟩ := h.midway hr h₀ htry
  rw [hk] at hk'
  cases hk'
  obtain ⟨hd, hpre, hended, hok⟩ := midway_outcome hm
  refine ⟨h, ⟨k, hk, rfl⟩, hd, fun hnone ho => (hended ho).2 hnone, new, hw, hpre, ?_, ?_⟩
  · -- the numbers are those of the connection's discipline
    have hanswered : ∀ m ∈ new.filter isTrade, ∀ i t, m = trade i t →
        Answered (c'.logAt (c.seat (dials trace))) ⟨t.symbol, t.exchange⟩ i := by
      rintro m hmem i t rfl
      have hin : trade i t ∈ messages (c'.logAt (c.seat (dials trace))) := by
        rw [hw.here]
        exact List.mem_append_right _ (List.mem_of_mem_filter hmem)
      obtain ⟨x, hx, hxm⟩ := List.mem_filterMap.1 hin
      cases x with
      | took f => cases hxm
      | wrote w =>
        cases hxm
        exact ((h.reachable hr).wired.orderly_logAt _).answered_of_trade hx
    refine ((List.forall₂_and_left _ _).2 ⟨hanswered, trades_of_plan hpre⟩).imp ?_
    rintro m t ⟨hall, i, rfl⟩
    exact ⟨i, rfl, hall i t rfl⟩
  · intro ho
    have hplan := hok ho
    refine ⟨hplan, ?_⟩
    rw [hplan]
    exact length_trades_plan (hended (by rw [ho]; nofun))

end Attempts

end Relay
end MarketFeed
