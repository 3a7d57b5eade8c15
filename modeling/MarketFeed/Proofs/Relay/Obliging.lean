import Mathlib.Data.List.Infix
import MarketFeed.Proofs.Relay.Retry
import MarketFeed.Proofs.Wire.Stream

/-!
# MarketFeed.Proofs.Relay.Obliging

A batch that is sent to a peer that obliges: it frames all it sends, welcomes the client, answers in
time and never closes.

* `Obliging` — such a peer, by what has arrived from it.
* `Grows` — no log ever loses an entry.
* `OnCourse` — what holds at each stage as long as each reply is the right one.
* `OnCourse.goes`, `OnCourse.reads`, `OnCourse.changes` — only a wrong reply ends it.
-/

namespace MarketFeed
namespace Relay

/-! ## Peers that oblige -/

/-- The peer has not closed. What has arrived is the beginning of some frames, the first of them a
welcome. -/
structure Obliging (x : Connection) : Prop where
  opened : x.peerClosed = false
  framed : ∃ fs more, x.incoming ++ more = fs.flatMap Wire.Frame.bytes ∧
    (∀ f ∈ fs, f.size < 65536) ∧
    ((∀ f, .took f ∉ x.log) → ∃ f rest, fs = f :: rest ∧ Welcomes f)

section Peers

variable {x x' : Connection} {f : Wire.Frame} {m : Wire.Message}

/-- The beginning of some frames has the first of them, or none. -/
theorem next_of_framed {incoming more : List UInt8} {fs : List Wire.Frame}
    (h : incoming ++ more = fs.flatMap Wire.Frame.bytes) (hs : ∀ f ∈ fs, f.size < 65536) :
    Wire.Frame.next incoming = .incomplete ∨ ∃ f rest tail, fs = f :: rest ∧
      Wire.Frame.next incoming = .frame f tail ∧ tail ++ more = rest.flatMap Wire.Frame.bytes := by
  cases fs with
  | nil =>
    rw [List.flatMap_nil, List.append_eq_nil_iff] at h
    rw [h.1]
    exact .inl rfl
  | cons f rest =>
    have hf : f.size < 65536 := hs f (.head _)
    rw [List.flatMap_cons] at h
    rcases List.append_eq_append_iff.1 h with ⟨tail, hbytes, hmore⟩ | ⟨tail, hin, hrest⟩
    -- no more than the first frame has arrived, or more
    · cases tail with
      | nil =>
        rw [List.append_nil] at hbytes
        refine .inr ⟨f, rest, [], rfl, ?_, hmore⟩
        rw [← hbytes, ← List.append_nil f.bytes]
        exact Wire.next_bytes_append hf []
      | cons b tail =>
        have hlen : incoming.length < f.size := by
          rw [← Wire.length_bytes, hbytes, List.length_append, List.length_cons]
          omega
        have htake : incoming = f.bytes.take incoming.length := by
          rw [hbytes, List.take_left]
        rw [htake]
        exact .inl (Wire.next_take_bytes hf hlen)
    · refine .inr ⟨f, rest, tail, rfl, ?_, hrest.symm⟩
      rw [hin]
      exact Wire.next_bytes_append hf tail

/-- From an obliging peer the reader takes a frame or finds nothing, and the first is a welcome. -/
theorem Obliging.next (h : Obliging x) : x.next = (.nothing, x) ∨
    ∃ f x', x.next = (.frame f, x') ∧ Obliging x' ∧ ((∀ g, .took g ∉ x.log) → Welcomes f) := by
  obtain ⟨hopen, fs, more, hbytes, hsize, hfirst⟩ := h
  unfold Connection.next
  rcases next_of_framed hbytes hsize with hn | ⟨f, rest, tail, rfl, hn, htail⟩
  · rw [hn, hopen]
    exact .inl rfl
  · rw [hn]
    refine .inr ⟨f, _, rfl, ⟨hopen, rest, more, htail, fun g hg => hsize g (.tail _ hg), ?_⟩, ?_⟩
    · intro hnone
      exact absurd (by simp) (hnone f)
    · intro hnone
      obtain ⟨g, rest', heq, hw⟩ := hfirst hnone
      cases heq
      exact hw

theorem Obliging.frame (h : Obliging x) (hn : x.next = (.frame f, x')) :
    Obliging x' ∧ ((∀ g, .took g ∉ x.log) → Welcomes f) := by
  rcases h.next with hno | ⟨g, y, hg, hy⟩
  · rw [hno] at hn
    cases hn
  · rw [hg] at hn
    cases hn
    exact hy

theorem Obliging.wrote (h : Obliging x) (hw : x.write m = .ok x') : Obliging x' := by
  obtain ⟨hopen, fs, more, hbytes, hsize, hfirst⟩ := h
  unfold Connection.write at hw
  rw [hopen] at hw
  cases hw
  refine ⟨rfl, fs, more, hbytes, hsize, ?_⟩
  intro hnone
  exact hfirst fun g hg => hnone g (List.mem_append_left _ hg)

theorem welcomes_welcome : Welcomes (Wire.Message.logonResponse 8 1 "welcome").frame :=
  ⟨8, "welcome", by decide +kernel⟩

/-- Nothing has arrived yet on a connection that was just dialled. -/
theorem obliging_dialled (m : Wire.Message) :
    Obliging { Connection.fresh with log := [.wrote m] } := by
  refine ⟨rfl, [(Wire.Message.logonResponse 8 1 "welcome").frame], _, rfl, ?_, ?_⟩
  · intro f hf
    rw [List.mem_singleton] at hf
    rw [hf]
    exact Wire.size_frame_lt _
  · exact fun _ => ⟨_, [], rfl, welcomes_welcome⟩

end Peers

/-! ## Logs grow -/

/-- Between two moments the logs have only gained entries. -/
def Grows (c c' : Client) : Prop := ∀ n, c.logAt n <+: c'.logAt n

namespace Grows

variable {c c' c'' : Client} {n : Nat}

theorem trans (h : Grows c c') (h' : Grows c' c'') : Grows c c'' :=
  fun n => (h n).trans (h' n)

theorem of_logs (h : c'.logs = c.logs) : Grows c c' := by
  intro n
  simp only [Client.logAt, h]
  exact List.prefix_refl _

theorem of_set {log log' : List Exchange} (hlog : c.logs[n]? = some log)
    (hl : c'.logs = c.logs.set n log') (h : log <+: log') : Grows c c' := by
  intro m
  simp only [Client.logAt, hl]
  by_cases hm : n = m
  · rw [← hm, hlog, List.getElem?_set_self (List.getElem?_eq_some_iff.1 hlog).1]
    exact h
  · rw [List.getElem?_set_ne hm]

theorem of_connection {x x' : Connection} (hx : c.connections[n]? = some x)
    (hl : c'.logs = (c.onConnection n fun _ => x').logs) (h : x.log <+: x'.log) : Grows c c' :=
  of_set (log_mem hx) (hl.trans (c.onConnection_logs n x')) h

theorem of_concat {log : List Exchange} (hl : c'.logs = c.logs ++ [log]) : Grows c c' := by
  intro m
  simp only [Client.logAt, hl]
  by_cases hm : m < c.logs.length
  · rw [List.getElem?_append_left hm]
  · rw [List.getElem?_eq_none (Nat.le_of_not_lt hm)]
    exact List.nil_prefix

end Grows

section Growing

variable {now : Nat} {k : Call} {c c' : Client}

theorem prefix_next {x x' : Connection} {a : Arrival} (h : x.next = (a, x')) :
    x.log <+: x'.log := by
  have hx : x'.log = x.next.2.log := by rw [h]
  rw [hx]
  rcases log_next x with hn | ⟨f, hn⟩
  · rw [hn]
  · rw [hn]
    exact List.prefix_append _ _

theorem prefix_write {x x' : Connection} {m : Wire.Message} (h : x.write m = .ok x') :
    x.log <+: x'.log := by
  rw [write_log h]
  exact List.prefix_append _ _

theorem grows_of_goes (hg : Goes now k c c') : Grows c c' := by
  cases hg with
  | findsLive => exact .of_logs (logs_congr (connected_spec c k).2.2.2)
  | findsNone => exact .of_logs c.dropSession_logs
  | refused => exact .of_logs (logs_congr (failAttempt_spec _ k _).2.2.2)
  | dials => exact .of_concat List.map_append
  | hearsBeat n due x x' f d hs hx hn => exact .of_connection hx rfl (prefix_next hn)
  | welcomed n due x x' f v text hs hx hn => exact .of_connection hx rfl (prefix_next hn)
  | failsLogon n due x x' e hs hx hn =>
    refine .of_connection hx (failLogon_logs _ k n e) ?_
    rcases hn with rfl | rfl
    · exact List.prefix_refl _
    · exact prefix_next rfl
  | installs n =>
    exact .of_logs ((logs_congr (connected_spec _ k).2.2.2).trans c.dropSession_logs)
  | trades s t rest id x x' hs hc hi hx hw => exact .of_connection hx rfl (prefix_write hw)
  | asks s t rest x x' hs hc hi hq hx hw => exact .of_connection hx rfl (prefix_write hw)
  | isConfirmed s t rest id due f q x x' hs hc hq hj hx hw =>
    exact .of_connection hx rfl (prefix_write hw)
  | failsSending s' e => exact .of_logs (failSending_logs { c with session := s' } k e)
  | restarts => exact .of_logs c.dropSession_logs
  | closes =>
    rcases logOff_logs c with hl | ⟨s, log, hs, hlog, hl⟩
    · exact .of_logs hl
    · exact .of_set hlog hl (List.prefix_append _ _)
  | _ => exact .of_logs rfl

theorem grows_of_around (ha : Around c c') : Grows c c' := by
  cases ha with
  | reads hr =>
    obtain ⟨s, x, x', hs, hal, hx, ⟨f, hn, -, rfl⟩ | ⟨f, hn, -, rfl⟩ | ⟨e, hn, rfl⟩⟩ :=
      read_cases hr
    · exact .of_connection hx rfl (prefix_next hn)
    · exact .of_connection hx rfl (prefix_next hn)
    · exact .of_connection hx rfl (prefix_next hn)
  | disturbs n x x' hx hl =>
    refine .of_connection hx rfl ?_
    rw [hl]
  | listens => exact .of_logs rfl

theorem Run.grows {id : Nat} {trace : List Stage} (h : Run id c trace c') : Grows c c' := by
  induction h with
  | here => exact .of_logs rfl
  | goes _ now k _ hs ih => exact ih.trans (grows_of_goes (goes_of_step hs))
  | around _ ha ih => exact ih.trans (grows_of_around ha)

end Growing

/-! ## On course -/

/-- How often an attempt that begins here has to dial. -/
def Client.toDial (c : Client) : Nat := if c.session.any Session.alive then 0 else 1

/-- The connection of an attempt that begins here, unless it fails. -/
def Client.home (c : Client) : Nat := c.seat c.toDial

/-- What was added to the log of a connection since `c`. -/
def Client.since (c : Client) (n : Nat) (c' : Client) : List Exchange :=
  (c'.logAt n).drop (c.logAt n).length

/-- The reply to a request is its confirmation. -/
def Confirmed (_ : Listing) (id : UInt32) (f : Wire.Frame) : Prop := Confirms id f

/-- After each request that was sent since `c` over the home connection, the first frame that came
off it, but for heartbeats, has confirmed it. So the reader had taken what nobody asked for before
the request went out. -/
def Punctual (c c' : Client) : Prop :=
  ∀ l id f, Replied (c.since c.home c') l id f → Confirmed l id f

/-- The attempt that began at `c` has dialled as often as it had to, and its session is live. The
log of the home connection has since gained `new`. -/
structure AtHome (c : Client) (d : Nat) (c' : Client) (s : Session) (new : List Exchange) :
    Prop where
  dialled : d = c.toDial
  session : c'.session = some s
  alive : s.alive = true
  home : s.connection = c.home
  obliging : ∃ x, c'.connections[c.home]? = some x ∧ Obliging x
  log : c'.logAt c.home = c.logAt c.home ++ new

/-- Over the home connection no request is open, and each reply so far was the right one. -/
def AtRest (c : Client) (d : Nat) (c' : Client) : Prop :=
  ∃ s new, AtHome c d c' s new ∧ Settled Confirmed new

/-- What holds at each stage of an attempt that began at `c` and has dialled `d` times, as long as
each reply is the right one. -/
def OnCourse (c : Client) (d : Nat) (c' : Client) : Stage → Prop
  | .beforeConnect | .beforeInspection =>
    (c.toDial = 1 ∧ c'.listening = true ∧ ∀ s, c'.session = some s → s.alive = false) ∨
      AtRest c d c'
  | .dialling => c.toDial = 1 ∧ c'.listening = true
  | .loggingOn n _ => c.toDial = 1 ∧ n = c.home ∧ ∃ x, c'.connections[n]? = some x ∧
    Obliging x ∧ x.log = [.wrote (Client.logonRequest c.config)]
  | .beforeInstallation n => c.toDial = 1 ∧ n = c.home ∧ ∃ x, c'.connections[n]? = some x ∧
    Obliging x ∧ ∃ f, x.log = [.wrote (Client.logonRequest c.config), .took f]
  | .beforeSending | .sending _ | .finished (.ok ()) => AtRest c d c'
  | .subscribing t _ id _ =>
    ∃ s new, AtHome c d c' s new ∧ Waiting Confirmed s new ⟨t.symbol, t.exchange⟩ id
  | _ => False

/-- How many steps the attempt has left at a stage. -/
def Stage.left (batch : List Tick) : Stage → Nat
  | .beforeConnect => 2 * batch.length + 7
  | .beforeInspection => 2 * batch.length + 6
  | .dialling => 2 * batch.length + 5
  | .loggingOn .. => 2 * batch.length + 4
  | .beforeInstallation _ => 2 * batch.length + 3
  | .beforeSending => 2 * batch.length + 2
  | .sending rest => 2 * rest.length + 1
  | .subscribing _ rest _ _ => 2 * rest.length + 2
  | _ => 0

section Course

variable {config : RelayConfig} {batch : List Tick} {again : Bool} {now d n : Nat} {k : Call}
  {c c' c'' : Client} {s s' : Session} {new : List Exchange} {sent : List Wire.Message}
  {x x' : Connection}

theorem logAt_eq (hx : c.connections[n]? = some x) : c.logAt n = x.log := by
  rw [Client.logAt, log_mem hx]
  rfl

theorem logAt_new (c : Client) : c.logAt c.connections.length = [] := by
  rw [Client.logAt, ← c.length_logs, List.getElem?_eq_none (Nat.le_refl _)]
  rfl

theorem home_of_toDial (h : c.toDial = 1) : c.home = c.connections.length := by
  rw [Client.home, h]
  rfl

theorem onConnection_getElem? (hx : c.connections[n]? = some x) :
    (c.onConnection n fun _ => x').connections[n]? = some x' := by
  simp only [Client.onConnection, List.getElem?_modify, if_pos, hx]
  rfl

theorem onConnection_getElem?_ne {m : Nat} (hm : n ≠ m) :
    (c.onConnection n fun _ => x').connections[m]? = c.connections[m]? := by
  simp only [Client.onConnection, List.getElem?_modify, if_neg hm]
  cases c.connections[m]? <;> rfl

theorem since_eq (h : c'.logAt n = c.logAt n ++ new) : c.since n c' = new := by
  rw [Client.since, h, List.drop_left]

/-- A wrong reply stays wrong. -/
theorem Punctual.of_grows (hg : Grows c c') (hg' : Grows c' c'') (h : Punctual c c'') :
    Punctual c c' := by
  intro l id f hf
  obtain ⟨new, hnew⟩ := hg c.home
  obtain ⟨more, hmore⟩ := hg' c.home
  rw [since_eq hnew.symm] at hf
  have hall : c.since c.home c'' = new ++ more := by
    apply since_eq
    rw [← hmore, ← hnew, List.append_assoc]
  exact h l id f (by rw [hall]; exact hf.mono more)

theorem AtHome.since_eq (h : AtHome c d c' s new) : c.since c.home c' = new :=
  Relay.since_eq h.log

theorem AtHome.spared (h : AtHome c d c' s new) (hs : c''.session = c'.session)
    (hx : c''.connections = c'.connections) : AtHome c d c'' s new where
  dialled := h.dialled
  session := hs.trans h.session
  alive := h.alive
  home := h.home
  obliging := by rw [hx]; exact h.obliging
  log := by
    rw [← h.log, Client.logAt, Client.logAt, logs_congr hx]

theorem AtHome.wrote {m : Wire.Message} (h : AtHome c d c' s new)
    (hx : c'.connections[s.connection]? = some x) (hw : x.write m = .ok x')
    (hs : c''.session = some s') (ha : s'.alive = s.alive) (hn : s'.connection = s.connection)
    (hc : c''.connections = (c'.onConnection s.connection fun _ => x').connections) :
    AtHome c d c'' s' (new ++ [Exchange.wrote m]) := by
  obtain ⟨y, hy, ho⟩ := h.obliging
  rw [h.home] at hx hc
  rw [hx] at hy
  cases hy
  have hx' : c''.connections[c.home]? = some x' := by
    rw [hc]
    exact onConnection_getElem? hx
  refine ⟨h.dialled, hs, ha.trans h.alive, hn.trans h.home, ⟨x', hx', ho.wrote hw⟩, ?_⟩
  rw [logAt_eq hx', write_log hw, ← logAt_eq hx, h.log, List.append_assoc]

/-- The reader has taken a frame. It cannot have ended. -/
theorem AtHome.reads (h : AtHome c d c' s new) (hr : c'.read = some c'') :
    ∃ s' new', AtHome c d c'' s' new' ∧ Receives s new s' new' := by
  obtain ⟨s₀, x, x', hs₀, ha, hx, hcase⟩ := read_cases hr
  rw [h.session] at hs₀
  cases hs₀
  obtain ⟨y, hy, ho⟩ := h.obliging
  rw [h.home] at hx
  rw [hx] at hy
  cases hy
  have hconn : ∀ o, { c'.onConnection c.home fun _ => x' with session := o }.connections[c.home]? =
      some x' := fun o => onConnection_getElem? hx
  rcases hcase with ⟨f, hn, hf, rfl⟩ | ⟨f, hn, hf, rfl⟩ | ⟨e, hn, rfl⟩
  · refine ⟨s, new ++ [Exchange.took f],
      ⟨h.dialled, rfl, ha, h.home, ⟨x', ?_, (ho.frame hn).1⟩, ?_⟩,
      .beats f hf⟩
    · rw [h.home]
      exact hconn _
    · rw [h.home, logAt_eq (hconn _), (next_log hn).1 f rfl, ← logAt_eq hx, h.log,
        List.append_assoc]
  · refine ⟨s.enqueue (.ok f), new ++ [Exchange.took f], ⟨h.dialled, rfl, ?_, ?_,
      ⟨x', ?_, (ho.frame hn).1⟩, ?_⟩, .queues f hf⟩
    · rw [enqueue_alive]
      exact ha
    · rw [enqueue_connection]
      exact h.home
    · rw [h.home]
      exact hconn _
    · rw [h.home, logAt_eq (hconn _), (next_log hn).1 f rfl, ← logAt_eq hx, h.log,
        List.append_assoc]
  · rcases ho.next with hno | ⟨g, y, hg, -⟩
    · rw [hno] at hn
      cases hn
    · rw [hg] at hn
      cases hn

/-- A peer that obliges may change its connection as long as it goes on to oblige. -/
theorem obliging_changed (hx : c.connections[n]? = some x) (hl : x'.log = x.log)
    (ho : Obliging x → Obliging x') {m : Nat} {y : Connection} (hy : c.connections[m]? = some y)
    (hoy : Obliging y) : ∃ y', (c.onConnection n fun _ => x').connections[m]? = some y' ∧
      Obliging y' ∧ y'.log = y.log := by
  by_cases hm : n = m
  · subst hm
    rw [hx] at hy
    cases hy
    exact ⟨x', onConnection_getElem? hx, ho hoy, hl⟩
  · exact ⟨y, (onConnection_getElem?_ne hm).trans hy, hoy, rfl⟩

theorem AtHome.changes (h : AtHome c d c' s new) (hx : c'.connections[n]? = some x)
    (hl : x'.log = x.log) (ho : Obliging x → Obliging x') :
    AtHome c d (c'.onConnection n fun _ => x') s new := by
  obtain ⟨y, hy, hoy⟩ := h.obliging
  obtain ⟨y', hy', hoy', hly⟩ := obliging_changed hx hl ho hy hoy
  refine ⟨h.dialled, h.session, h.alive, h.home, ⟨y', hy', hoy'⟩, ?_⟩
  rw [logAt_eq hy', hly, ← logAt_eq hy, h.log]

theorem AtRest.spared (h : AtRest c d c') (hs : c''.session = c'.session)
    (hx : c''.connections = c'.connections) : AtRest c d c'' := by
  obtain ⟨s, new, hat, hset⟩ := h
  exact ⟨s, new, hat.spared hs hx, hset⟩

theorem AtRest.reads (h : AtRest c d c') (hr : c'.read = some c'') : AtRest c d c'' := by
  obtain ⟨s, new, hat, hset⟩ := h
  obtain ⟨s', new', hat', hrec⟩ := hat.reads hr
  exact ⟨s', new', hat', hset.receives hrec⟩

theorem AtRest.changes (h : AtRest c d c') (hx : c'.connections[n]? = some x)
    (hl : x'.log = x.log) (ho : Obliging x → Obliging x') :
    AtRest c d (c'.onConnection n fun _ => x') := by
  obtain ⟨s, new, hat, hset⟩ := h
  exact ⟨s, new, hat.changes hx hl ho, hset⟩

theorem AtRest.punctual (h : AtRest c d c') : Punctual c c' := by
  obtain ⟨s, new, hat, hset⟩ := h
  intro l id f hf
  rw [hat.since_eq] at hf
  exact hset.all l id f hf

theorem OnCourse.atHome {st : Stage} (h : OnCourse c d c' st) (hs : st.isSending = true) :
    ∃ s new, AtHome c d c' s new := by
  cases st with
  | beforeSending =>
    obtain ⟨s, new, hat, -⟩ := h
    exact ⟨s, new, hat⟩
  | sending rest =>
    obtain ⟨s, new, hat, -⟩ := h
    exact ⟨s, new, hat⟩
  | subscribing t rest id due =>
    obtain ⟨s, new, hat, -⟩ := h
    exact ⟨s, new, hat⟩
  | _ => cases hs

/-! ## What keeps it there -/

/-- The reader keeps it there: a frame that it takes is a heartbeat, or a reply that still is to be
judged, or answers nothing. -/
theorem OnCourse.reads (h' : Wired config c') (hk : k ∈ c'.calls) (ho : OnCourse c d c' k.stage)
    (hr : c'.read = some c'') : OnCourse c d c'' k.stage := by
  obtain ⟨s, x, x', hs, ha, -⟩ := read_cases hr
  have hfit := h'.fits k hk
  have hbegun : (c.toDial = 1 ∧ c'.listening = true ∧ ∀ s, c'.session = some s → s.alive = false) ∨
      AtRest c d c' → AtRest c d c'' := by
    rintro (⟨-, -, hdead⟩ | hrest)
    · have hno := hdead s hs
      rw [ha] at hno
      cases hno
    · exact hrest.reads hr
  have hnone : c'.session = none → False := by
    rw [hs]
    exact nofun
  cases hst : k.stage with
  | beforeConnect => rw [hst] at ho; exact .inr (hbegun ho)
  | beforeInspection => rw [hst] at ho; exact .inr (hbegun ho)
  | dialling => rw [hst] at hfit; exact (hnone hfit).elim
  | loggingOn m due => rw [hst] at hfit; exact (hnone hfit.1).elim
  | beforeInstallation m => rw [hst] at hfit; exact (hnone hfit.1).elim
  | beforeSending => rw [hst] at ho; exact AtRest.reads ho hr
  | sending rest => rw [hst] at ho; exact AtRest.reads ho hr
  | subscribing t rest id due =>
    rw [hst] at ho
    obtain ⟨s, new, hat, hwait⟩ := ho
    obtain ⟨s', new', hat', hrec⟩ := hat.reads hr
    exact ⟨s', new', hat', hwait.receives hat.alive hrec⟩
  | finished r =>
    rw [hst] at ho
    cases r with
    | ok u => exact AtRest.reads ho hr
    | error e => exact ho.elim
  | _ => rw [hst] at ho; exact ho.elim

theorem OnCourse.changes {st : Stage} (h : OnCourse c d c' st) (hx : c'.connections[n]? = some x)
    (hl : x'.log = x.log) (ho : Obliging x → Obliging x') :
    OnCourse c d (c'.onConnection n fun _ => x') st := by
  have hrest : AtRest c d c' → AtRest c d (c'.onConnection n fun _ => x') :=
    fun hrest => hrest.changes hx hl ho
  cases st with
  | beforeConnect => exact h.imp id hrest
  | beforeInspection => exact h.imp id hrest
  | dialling => exact h
  | loggingOn m due =>
    obtain ⟨hd, hm, y, hy, hoy, hlog⟩ := h
    obtain ⟨y', hy', hoy', hly⟩ := obliging_changed hx hl ho hy hoy
    exact ⟨hd, hm, y', hy', hoy', hly.trans hlog⟩
  | beforeInstallation m =>
    obtain ⟨hd, hm, y, hy, hoy, f, hlog⟩ := h
    obtain ⟨y', hy', hoy', hly⟩ := obliging_changed hx hl ho hy hoy
    exact ⟨hd, hm, y', hy', hoy', f, hly.trans hlog⟩
  | beforeSending => exact hrest h
  | sending rest => exact hrest h
  | subscribing t rest id due =>
    obtain ⟨s, new, hat, hwait⟩ := h
    exact ⟨s, new, hat.changes hx hl ho, hwait⟩
  | finished r =>
    cases r with
    | ok u => exact hrest h
    | error e => exact h
  | _ => exact h

theorem took_not_mem {m : Wire.Message} : ∀ g, Exchange.took g ∉ [.wrote m] := by
  intro g hg
  rw [List.mem_singleton] at hg
  cases hg

/-- Before its deadline a logon at an obliging peer does not fail. -/
theorem no_logonFault {due : Nat} (ho : Obliging x) (hfirst : ∀ g, .took g ∉ x.log)
    (hin : now < due) : ¬ LogonFault now due x := by
  intro hf
  cases hf with
  | late h => omega
  | broken e hn =>
    rcases ho.next with hno | ⟨f, x', hf, -⟩
    · rw [hno] at hn
      cases hn
    · rw [hf] at hn
      cases hn
  | denied f hn hw =>
    rcases ho.next with hno | ⟨g, x', hg, -, hwelcome⟩
    · rw [hno] at hn
      cases hn
    · rw [hg] at hn
      cases hn
      obtain ⟨v, text, hd⟩ := hwelcome hfirst
      exact hw v text hd

/-- While it sends, a call on course can only fail by a wrong reply. -/
theorem wrong_reply (h' : Wired config c') (ht : k.task = .publish batch again)
    (hs : k.stage.isSending = true) (ho : OnCourse c d c' k.stage)
    (hin : ∀ due, Client.alarm? k = some due → now < due) (hf : SendingFault now k c') :
    ¬ Punctual c c' := by
  obtain ⟨s, new, hat⟩ := ho.atHome hs
  cases hf with
  | missing h =>
    rcases h with hnone | hno
    · rw [hat.session] at hnone
      cases hnone
    · exact absurd ht (hno batch again)
  | dead s' hs' ha =>
    rw [hat.session] at hs'
    cases hs'
    rw [hat.alive] at ha
    cases ha
  | queued s' e hs' he =>
    rw [hat.session] at hs'
    cases hs'
    obtain ⟨log, -, hstep⟩ := h'.inStep s hat.session
    have hdead := (hstep.inbound e he).1
    rw [hat.alive] at hdead
    cases hdead
  | unwritten s' hs' hx =>
    rw [hat.session] at hs'
    cases hs'
    obtain ⟨x, hx', hox⟩ := hat.obliging
    rw [← hat.home] at hx'
    have hopen := hx x hx'
    rw [hox.opened] at hopen
    cases hopen
  | late t rest id due hst hlate =>
    have hsoon := hin due (by rw [Client.alarm?, hst])
    omega
  | denied s' t rest id due f q e hst hs' hq hj =>
    rw [hst] at ho
    obtain ⟨s₀, new₀, hat₀, hwait⟩ := ho
    rw [hat₀.session] at hs'
    cases hs'
    obtain ⟨-, hreply, -⟩ := hwait.arrival hq
    intro hp
    have hconf := hp _ _ f (by rw [hat₀.since_eq]; exact hreply)
    rw [judge_ok_iff.2 hconf] at hj
    cases hj

theorem outcome?_failure (k : Call) (e : RelayError) :
    (k.failure e).outcome? = some (.error e) := by
  unfold Call.failure
  split <;> rfl

/-- Dialling keeps it there: the peer is listening. -/
theorem OnCourse.dials (batch : List Tick) (hc : c'.config = c.config)
    (hk : c'.calls.find? (·.id = k.id) = some k) (hs : k.stage = .dialling)
    (hlen : c'.connections.length = c.connections.length)
    (ho : OnCourse c d c' k.stage) (hg : Goes now k c' c'') :
    ∃ st, c''.calls.find? (·.id = k.id) = some { k with stage := st } ∧ OnCourse c 1 c'' st ∧
      st.left batch < k.stage.left batch := by
  rw [hs] at ho
  obtain ⟨hd, hlisten⟩ := ho
  cases hg with
  | refused hs' hr =>
    rw [hlisten] at hr
    cases hr
  | dials hs' hr =>
    refine ⟨.loggingOn c'.connections.length (c'.deadline now), find?_restage hk _,
      ⟨hd, hlen.trans (home_of_toDial hd).symm, _, List.getElem?_concat_length,
        obliging_dialled _, ?_⟩, ?_⟩
    · rw [hc]
    · rw [hs]
      exact Nat.lt_succ_self _
  | failsSending s' e hsend =>
    rw [hs] at hsend
    cases hsend
  | _ =>
    rename k.stage = _ => hother
    rw [hs] at hother
    cases hother

/-- Any other step before the deadline keeps it there, unless a reply was wrong. -/
theorem OnCourse.goes (h' : Wired config c') (hk : c'.calls.find? (·.id = k.id) = some k)
    (ht : k.task = .publish batch again) (hns : k.stage ≠ .dialling)
    (hm : Midway batch again c d c' sent k.stage) (ho : OnCourse c d c' k.stage)
    (hin : ∀ due, Client.alarm? k = some due → now < due) (hg : Goes now k c' c'') :
    ∃ st, c''.calls.find? (·.id = k.id) = some { k with stage := st } ∧
      ((OnCourse c d c'' st ∧ st.left batch < k.stage.left batch) ∨
        (∃ e, st.outcome? = some (.error e)) ∧ ¬ Punctual c c') := by
  cases hg with
  | enters hs =>
    rw [hs] at ho ⊢
    exact ⟨.beforeInspection, find?_restage hk _,
      .inl ⟨ho.imp id fun h => h.spared rfl rfl, Nat.lt_succ_self _⟩⟩
  | findsLive s hs hl hs' ha =>
    rw [hs] at ho ⊢
    obtain ⟨hcalls, -, hsession, hconns⟩ := connected_spec c' k
    rcases ho with ⟨-, -, hdead⟩ | hrest
    · have hno := hdead s hs'
      rw [ha] at hno
      cases hno
    · refine ⟨.beforeSending, ?_, .inl ⟨hrest.spared hsession hconns, ?_⟩⟩
      · rw [hcalls, readiness_publish ht]
        exact find?_restage hk _
      · simp only [Stage.left]
        omega
  | findsNone hs hl ha =>
    rw [hs] at ho ⊢
    obtain ⟨xs, hd⟩ := c'.dropSession_spec
    rcases ho with ⟨hdial, hlisten, -⟩ | ⟨s, new, hat, -⟩
    · refine ⟨.dialling, ?_, .inl ⟨⟨hdial, ?_⟩, Nat.lt_succ_self _⟩⟩
      · rw [hd]
        exact find?_restage hk _
      · rw [hd]
        exact hlisten
    · have hno := ha s hat.session
      rw [hat.alive] at hno
      cases hno
  | refused hs => exact absurd hs hns
  | dials hs => exact absurd hs hns
  | hearsBeat n due x x' f b hs hx hn hd =>
    -- the first frame is the welcome, and no heartbeat
    rw [hs] at ho
    obtain ⟨-, -, y, hy, hoy, hlog⟩ := ho
    rw [hx] at hy
    cases hy
    obtain ⟨v, text, hw⟩ := (hoy.frame hn).2 (by rw [hlog]; exact took_not_mem)
    rw [hd] at hw
    cases hw
  | welcomed n due x x' f v text hs hx hn =>
    rw [hs] at ho ⊢
    obtain ⟨hd, hhome, y, hy, hoy, hlog⟩ := ho
    rw [hx] at hy
    cases hy
    refine ⟨.beforeInstallation n, find?_restage hk _, .inl ⟨⟨hd, hhome, x',
      onConnection_getElem? hx, (hoy.frame hn).1, f, ?_⟩, Nat.lt_succ_self _⟩⟩
    rw [(next_log hn).1 f rfl, hlog]
    rfl
  | failsLogon n due x x' e hs hx hn hf =>
    have hsoon := hin due (by rw [Client.alarm?, hs])
    rw [hs] at ho
    obtain ⟨-, -, y, hy, hoy, hlog⟩ := ho
    rw [hx] at hy
    cases hy
    exact absurd hf (no_logonFault hoy (by rw [hlog]; exact took_not_mem) hsoon)
  | installs n hs hl =>
    have hfit := h'.fits k (List.mem_of_find?_eq_some hk)
    rw [hs] at ho hm hfit ⊢
    obtain ⟨hd, rfl, x, hx, hox, f, hlog⟩ := ho
    obtain ⟨hcalls, -, hsession, hconns⟩ :=
      connected_spec { c' with session := some (.start c.home) } k
    rw [Client.dropSession_of_none hfit.1]
    have hx' : (Client.connected { c' with session := some (.start c.home) } k).connections[
        c.home]? = some x := by
      rw [hconns]
      exact hx
    refine ⟨.beforeSending, ?_, .inl ⟨⟨.start c.home, x.log, ⟨hm.1.trans hd.symm, hsession, rfl,
      rfl, ⟨x, hx', hox⟩, ?_⟩, ?_⟩, Nat.lt_succ_self _⟩⟩
    · rw [hcalls, readiness_publish ht]
      exact find?_restage hk _
    · rw [logAt_eq hx', home_of_toDial hd, logAt_new, List.nil_append]
    · rw [hlog]
      exact settled_of_logon rfl
  | begins s b a hs hl hs' ha hb =>
    rw [hs] at ho ⊢
    rw [ht] at hb
    cases hb
    exact ⟨.sending batch, find?_restage hk _,
      .inl ⟨AtRest.spared ho rfl rfl, Nat.lt_succ_self _⟩⟩
  | completes s hs hs' =>
    rw [hs] at ho ⊢
    exact ⟨.finished (.ok ()), find?_restage hk _,
      .inl ⟨AtRest.spared ho rfl rfl, Nat.lt_succ_self _⟩⟩
  | trades s t rest id x x' hs hs' hi hx hw =>
    rw [hs] at ho ⊢
    obtain ⟨s₀, new, hat, hset⟩ := ho
    rw [hat.session] at hs'
    cases hs'
    have hsession : ((c'.onConnection s.connection fun _ => x').setStage k.id
      (.sending rest)).session = some s := hat.session
    refine ⟨.sending rest, find?_restage hk _, .inl ⟨⟨s, _,
      hat.wrote hx hw hsession rfl rfl rfl, hset.wrote (trade_ne_subscribe id t)⟩, ?_⟩⟩
    simp only [Stage.left, List.length_cons]
    omega
  | asks s t rest x x' hs hs' hi hq hx hw =>
    -- the queue is empty now, so there will be room for the reply
    rw [hs] at ho ⊢
    obtain ⟨s₀, new, hat, hset⟩ := ho
    rw [hat.session] at hs'
    cases hs'
    refine ⟨.subscribing t rest s.nextId _, find?_restage hk _, .inl
      ⟨⟨{ s with inbound := [], nextId := s.nextId + 1 }, _, hat.wrote hx hw rfl rfl rfl rfl,
        .opened (asking_wrote.2 rfl) ?_ (.inl rfl)⟩, ?_⟩⟩
    · intro l id f hf
      exact hset.all l id f (replied_wrote.1 hf)
    · simp only [Stage.left, List.length_cons]
      omega
  | isConfirmed s t rest id due f q x x' hs hs' hq hj hx hw =>
    rw [hs] at ho ⊢
    obtain ⟨s₀, new, hat, hwait⟩ := ho
    rw [hat.session] at hs'
    cases hs'
    obtain ⟨hclosed, hreply, hall⟩ := hwait.arrival hq
    have hset : Settled Confirmed new := by
      refine ⟨hclosed, ?_⟩
      intro l i g hg
      rcases hall l i g hg with hconf | ⟨-, rfl, rfl⟩
      · exact hconf
      · exact judge_ok_iff.1 hj
    exact ⟨.sending rest, find?_restage hk _, .inl
      ⟨⟨{ s with inbound := q }.accept ⟨t.symbol, t.exchange⟩ id, _,
        hat.wrote hx hw rfl rfl rfl rfl, hset.wrote (trade_ne_subscribe id t)⟩, Nat.lt_succ_self _⟩⟩
  | isRejected s t rest id due f q reason hs hs' hq hj =>
    refine ⟨.finished (.error _), find?_restage hk _, .inr ⟨⟨_, rfl⟩, ?_⟩⟩
    exact wrong_reply h' ht (by rw [hs]; rfl) ho hin (.denied s t rest id due f q _ hs hs' hq hj)
  | failsSending s' e hs hl hs' he hf =>
    refine ⟨k.failure e, ?_, .inr ⟨⟨e, outcome?_failure k e⟩, wrong_reply h' ht hs ho hin hf⟩⟩
    rw [failSending_calls]
    exact find?_restage hk _
  | retires e hs => rw [hs] at ho; exact ho.elim
  | restarts e task hs => rw [hs] at ho; exact ho.elim
  | prepares hs => rw [hs] at ho; exact ho.elim
  | closes hs => rw [hs] at ho; exact ho.elim

end Course

end Relay
end MarketFeed
