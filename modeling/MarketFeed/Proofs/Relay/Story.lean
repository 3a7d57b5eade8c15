import MarketFeed.Proofs.Relay.Retry

/-!
# MarketFeed.Proofs.Relay.Story

What all calls of a client have written, one after another, each message with its call.

* `Entry`, `Call.entries` — a message that a call has written, and those of one step.
* `Reorders` — a lock is handed on in another order than that of the queue.
* `Told` — the clients that can come about, with the story of what was written; the locks are handed
  on in turn, or in any order. `Reachable.told`: every client that can come about has a story.
* `Pens`, `pens_of_goes` — what a step writes: a logon on a new connection, or a message on the
  connection of the session, whose lock the call holds.
-/

namespace MarketFeed
namespace Relay

/-! ## Entries -/

def Task.again : Task → Bool
  | .publish _ again => again
  | _ => false

/-- A message that a call has written in its first or second attempt. -/
structure Entry where
  call : Nat
  again : Bool
  connection : Nat
  message : Wire.Message

def Entry.attempt (e : Entry) : Nat × Bool := (e.call, e.again)

def Call.attempt (k : Call) : Nat × Bool := (k.id, k.task.again)

/-- What was written between two moments, connection by connection. -/
def Client.written (c c' : Client) : List (Nat × Wire.Message) :=
  (List.range c'.connections.length).flatMap fun n =>
    ((messages (c'.logAt n)).drop (messages (c.logAt n)).length).map (n, ·)

/-- The entries of a step that a call makes. -/
def Call.entries (k : Call) (c c' : Client) : List Entry :=
  (c.written c').map fun p => ⟨k.id, k.task.again, p.1, p.2⟩

/-- A list of parts all of which are empty but one. -/
theorem flatMap_eq_of_unique {α β : Type} [DecidableEq α] {f : α → List β} {l : List α} {a : α}
    (hu : l.Nodup) (hf : ∀ b ∈ l, b ≠ a → f b = []) :
    l.flatMap f = if a ∈ l then f a else [] := by
  induction l with
  | nil => rfl
  | cons b l ih =>
    obtain ⟨hout, hu⟩ := List.nodup_cons.1 hu
    have ih := ih hu fun b hb => hf b (.tail _ hb)
    rw [List.flatMap_cons, ih]
    by_cases hb : b = a
    · subst hb
      rw [if_neg hout, if_pos (.head _), List.append_nil]
    · rw [hf b (.head _) hb, List.nil_append]
      simp only [List.mem_cons, Ne.symm hb, false_or]

theorem logAt_of_le {c : Client} {n : Nat} (h : c.connections.length ≤ n) : c.logAt n = [] := by
  rw [Client.logAt, List.getElem?_eq_none (by rwa [c.length_logs]), Option.getD_none]

theorem written_of_writes {c c' : Client} {n : Nat} {new : List Wire.Message}
    (h : Writes c c' n new) : c.written c' = new.map (n, ·) := by
  rw [Client.written, flatMap_eq_of_unique (a := n) List.nodup_range]
  · rw [h.here, List.drop_left]
    split
    · rfl
    · rename_i hout
      have hnone := h.here
      rw [logAt_of_le (Nat.le_of_not_lt fun hlt => hout (List.mem_range.2 hlt))] at hnone
      rw [(List.append_eq_nil_iff.1 hnone.symm).2]
      rfl
  · intro m _ hm
    rw [h.elsewhere m hm, List.drop_length]
    rfl

theorem entries_of_writes {c c' : Client} {n : Nat} {new : List Wire.Message} (k : Call)
    (h : Writes c c' n new) :
    k.entries c c' = new.map fun m => ⟨k.id, k.task.again, n, m⟩ := by
  rw [Call.entries, written_of_writes h, List.map_map]
  rfl

/-! ## Stories -/

/-- A lock is handed on in another order. Who relies on holding it still does. -/
inductive Reorders (c : Client) : Client → Prop where
  | dial {queue : List Nat} (hq : queue.Perm c.dialLock.queue)
      (hown : ∀ k ∈ c.calls, k.stage.ownsDial = true → queue.head? = some k.id) :
      Reorders c { c with dialLock := ⟨queue⟩ }
  | session {queue : List Nat} (hq : queue.Perm c.sessionLock.queue)
      (hown : ∀ k ∈ c.calls, k.stage.ownsSession = true → queue.head? = some k.id) :
      Reorders c { c with sessionLock := ⟨queue⟩ }

/-- The clients that can come about, with all that their calls have written. The locks are handed on
in turn, or else in any order. -/
inductive Told (config : RelayConfig) (inTurn : Bool) : List Entry → Client → Prop where
  | new : Told config inTurn [] (.new config)
  | goes {story : List Entry} {c c' : Client} (h : Told config inTurn story c) (now : Nat)
      (k : Call) (hk : c.calls.find? (·.id = k.id) = some k) (hs : c.step now k = some c') :
      Told config inTurn (story ++ k.entries c c') c'
  | around {story : List Entry} {c c' : Client} (h : Told config inTurn story c)
      (ha : Around c c') : Told config inTurn story c'
  | calls {story : List Entry} {c : Client} (h : Told config inTurn story c) (task : Task)
      (ht : ∀ batch, task ≠ .publish batch true) : Told config inTurn story (c.call task).2
  | forgets {story : List Entry} {c : Client} (h : Told config inTurn story c) (k : Call)
      (r : Except RelayError Unit) (hk : k ∈ c.calls) (hs : k.stage = .finished r) :
      Told config inTurn story (c.forget k.id)
  | givesUp {story : List Entry} {c : Client} (h : Told config inTurn story c) (k : Call)
      (hk : c.calls.find? (·.id = k.id) = some k) (hs : k.stage.ownsSession = false) :
      Told config inTurn story (c.abandon k.id)
  | reorders {story : List Entry} {c c' : Client} (h : Told config inTurn story c)
      (hany : inTurn = false) (hr : Reorders c c') : Told config inTurn story c'

section Stories

variable {config : RelayConfig} {inTurn : Bool} {story : List Entry} {c c' : Client} {now : Nat}
  {k : Call}

theorem Reachable.told (h : Reachable config c) : ∃ story, Told config true story c := by
  induction h with
  | new => exact ⟨[], .new⟩
  | move _ hm ih =>
    obtain ⟨story, h⟩ := ih
    cases hm with
    | goes now k hk hs => exact ⟨_, .goes h now k hk hs⟩
    | around ha => exact ⟨story, .around h ha⟩
    | calls task ht => exact ⟨story, .calls h task ht⟩
    | forgets k r hk hs => exact ⟨story, .forgets h k r hk hs⟩
    | givesUp k hk hs => exact ⟨story, .givesUp h k hk hs⟩

theorem Serves.reorder {l : Lock} {calls : List Call} {asks owns : Stage → Bool} {queue : List Nat}
    (h : Serves l calls asks owns) (hq : queue.Perm l.queue)
    (hown : ∀ k ∈ calls, owns k.stage = true → queue.head? = some k.id) :
    Serves ⟨queue⟩ calls asks owns where
  nodup := hq.nodup_iff.2 h.nodup
  mem_iff id := hq.mem_iff.trans (h.mem_iff id)
  head k hk ho := decide_eq_true (hown k hk ho)

theorem Locked.reorders (h : Locked c) (hr : Reorders c c') : Locked c' := by
  cases hr with
  | dial hq hown => exact ⟨h.nodup, h.fresh, h.dial.reorder hq hown, h.session⟩
  | session hq hown => exact ⟨h.nodup, h.fresh, h.dial, h.session.reorder hq hown⟩

theorem Wired.reorders (h : Wired config c) (hr : Reorders c c') : Wired config c' := by
  cases hr <;> exact h.spared rfl rfl rfl (fun _ hj => .inr hj) fun _ hj _ => hj

/-- The locks fit the calls and the connections keep the rules, in whatever order the locks are
handed on. -/
theorem Told.kept (h : Told config inTurn story c) : Locked c ∧ Wired config c := by
  have hmove {c c' : Client} (ih : Locked c ∧ Wired config c) (hm : Move c c') :
      Locked c' ∧ Wired config c' := ⟨ih.1.move hm, ih.2.move ih.1 hm⟩
  induction h with
  | new => exact ⟨.new config, .new config⟩
  | goes _ now k hk hs ih => exact hmove ih (.goes now k hk hs)
  | around _ ha ih => exact hmove ih (.around ha)
  | calls _ task ht ih => exact hmove ih (.calls task ht)
  | forgets _ k r hk hs ih => exact hmove ih (.forgets k r hk hs)
  | givesUp _ k hk hs ih => exact hmove ih (.givesUp k hk hs)
  | reorders _ _ hr ih => exact ⟨ih.1.reorders hr, ih.2.reorders hr⟩

/-! ## What a step writes -/

/-- What a step of a call writes. -/
inductive Pens (k : Call) (c c' : Client) : Prop where
  | nothing (h : ∀ n, messages (c'.logAt n) = messages (c.logAt n))
  | logon (hs : k.stage = .dialling)
      (h : Writes c c' c.connections.length [Client.logonRequest c.config])
  | frame (s : Session) (m : Wire.Message) (hc : c.session = some s)
      (hl : c.sessionLock.heldBy k.id = true) (hm : m.kind ≠ .logonRequest)
      (hs : k.stage.ownsSession = true ∨ k.stage = .closing) (h : Writes c c' s.connection [m])

theorem Pens.of_logs (h : c'.logs = c.logs) : Pens k c c' :=
  .nothing fun n => by rw [Client.logAt, Client.logAt, h]

/-- What is taken off a connection is not written. -/
theorem Pens.of_took {n : Nat} {x x' : Connection} (hx : c.connections[n]? = some x)
    (hn : x' = x ∨ x' = x.next.2) (hl : c'.logs = (c.onConnection n fun _ => x').logs) :
    Pens k c c' :=
  .nothing ((Writes.of_logs rfl n).took hx hn hl).at_nil

theorem pens_of_goes (hlk : Locked c) (hk : k ∈ c.calls) (hg : Goes now k c c') : Pens k c c' := by
  have hheld : k.stage.ownsSession = true → c.sessionLock.heldBy k.id = true :=
    hlk.session.head k hk
  cases hg with
  | findsLive s hs hl hc ha => exact .of_logs (logs_congr (connected_spec c k).2.2.2)
  | findsNone hs hl ha => exact .of_logs c.dropSession_logs
  | refused hs hr => exact .of_logs (logs_congr (failAttempt_spec _ k _).2.2.2)
  | dials hs hr =>
    refine .logon hs (@Writes.of_concat _ _ [.wrote (Client.logonRequest c.config)] ?_)
    exact List.map_append
  | hearsBeat n due x x' f d hs hx hn hd => exact .of_took hx (.inr (by rw [hn])) rfl
  | welcomed n due x x' f v text hs hx hn hd => exact .of_took hx (.inr (by rw [hn])) rfl
  | failsLogon n due x x' e hs hx hn hf => exact .of_took hx hn (failLogon_logs _ k n e)
  | installs n hs hl =>
    refine .of_logs ((logs_congr (connected_spec _ k).2.2.2).trans ?_)
    exact c.dropSession_logs
  | trades s t rest id x x' hs hc hi hx hw =>
    have hown : k.stage.ownsSession = true := by rw [hs]; rfl
    exact .frame s (trade id t) hc (hheld hown) nofun (.inl hown)
      ((Writes.of_logs rfl _).wrote hx hw rfl rfl)
  | asks s t rest x x' hs hc hi hq hx hw =>
    have hown : k.stage.ownsSession = true := by rw [hs]; rfl
    exact .frame s (.subscribe s.nextId t.symbol t.exchange) hc (hheld hown) nofun (.inl hown)
      ((Writes.of_logs rfl _).wrote hx hw rfl rfl)
  | isConfirmed s t rest id due f q x x' hs hc hq hj hx hw =>
    have hown : k.stage.ownsSession = true := by rw [hs]; rfl
    exact .frame s (trade id t) hc (hheld hown) nofun (.inl hown)
      ((Writes.of_logs rfl _).wrote hx hw rfl rfl)
  | failsSending s' e hs hl hc he hf => exact .of_logs (failSending_logs _ k e)
  | restarts e task hs hl ht => exact .of_logs c.dropSession_logs
  | closes hs hl =>
    rcases logOff_logs c with hlogs | ⟨s, log, hc, hlog, hlogs⟩
    · exact .of_logs hlogs
    · refine .frame s (.logoff "client closing") hc hl nofun (.inr hs) (.of_set hlog hlogs ?_)
      rw [messages_wrote]
  | _ => exact .of_logs rfl

end Stories

end Relay
end MarketFeed
