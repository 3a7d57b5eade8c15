import MarketFeed.Proofs.Relay.Log
import MarketFeed.Proofs.Relay.Steps

/-!
# MarketFeed.Proofs.Relay.Session

How the session and the log of its connection agree.

* `InStep`, `Settled`, `Waiting` — at all times, while no request is open, and while one is.
* `Receives` — what the reader does, as seen by both. It keeps all three.
-/

namespace MarketFeed
namespace Relay

structure InStep (s : Session) (log : List Exchange) : Prop where
  inUse : InUse log
  nextId : s.nextId = UInt32.ofNat ((subscriptions log).length + 1)
  known : ∀ l id, (l, id) ∈ s.subscriptions → Answered log l id
  inbound : ∀ e, .error e ∈ s.inbound → s.alive = false ∧ e.isConnectionError = true

/-- If the reply to a request has confirmed it, the session knows of it. -/
def Known (s : Session) (l : Listing) (id : UInt32) (f : Wire.Frame) : Prop :=
  Confirms id f → (l, id) ∈ s.subscriptions

/-- No request is open, and all replies so far are as they should be. -/
structure Settled (P : Listing → UInt32 → Wire.Frame → Prop) (log : List Exchange) : Prop where
  closed : ∀ l id, ¬ Asking log l id
  all : ∀ l id f, Replied log l id f → P l id f

/-- The reply to one request has not arrived, or it stands first in the queue; all others are as
they should be. -/
inductive Waiting (P : Listing → UInt32 → Wire.Frame → Prop) (s : Session) (log : List Exchange)
    (l : Listing) (id : UInt32) : Prop where
  | opened (asking : Asking log l id) (all : ∀ l' id' g, Replied log l' id' g → P l' id' g)
      (queue : s.inbound = [] ∨ ∃ e, s.alive = false ∧ s.inbound = [.error e])
  | arrived (f : Wire.Frame) (q : List (Except RelayError Wire.Frame))
      (closed : ∀ l' id', ¬ Asking log l' id') (queue : s.inbound = .ok f :: q)
      (reply : Replied log l id f)
      (all : ∀ l' id' g, Replied log l' id' g → P l' id' g ∨ (l' = l ∧ id' = id ∧ g = f))

/-- What the reader can make of the session and its log. -/
inductive Receives (s : Session) (log : List Exchange) : Session → List Exchange → Prop where
  | beats (f : Wire.Frame) (hf : f.code = Wire.MessageKind.heartbeat.code) :
      Receives s log s (log ++ [.took f])
  | queues (f : Wire.Frame) (hf : f.code ≠ Wire.MessageKind.heartbeat.code) :
      Receives s log (s.enqueue (.ok f)) (log ++ [.took f])
  | ends (e : RelayError) (he : e.isConnectionError = true) :
      Receives s log ({ s with alive := false }.enqueue (.error e)) log

section Receiving

variable {s s' : Session} {log log' : List Exchange} {l : Listing} {id : UInt32}
  {P : Listing → UInt32 → Wire.Frame → Prop}

theorem enqueue_eq (s : Session) (i : Except RelayError Wire.Frame) :
    s.enqueue i = s ∨ s.enqueue i = { s with inbound := s.inbound ++ [i] } := by
  unfold Session.enqueue
  split
  · exact .inr rfl
  · exact .inl rfl

theorem enqueue_subscriptions (s : Session) (i : Except RelayError Wire.Frame) :
    (s.enqueue i).subscriptions = s.subscriptions := by
  rcases enqueue_eq s i with h | h <;> rw [h]

theorem enqueue_nextId (s : Session) (i : Except RelayError Wire.Frame) :
    (s.enqueue i).nextId = s.nextId := by
  rcases enqueue_eq s i with h | h <;> rw [h]

theorem enqueue_alive (s : Session) (i : Except RelayError Wire.Frame) :
    (s.enqueue i).alive = s.alive := by
  rcases enqueue_eq s i with h | h <;> rw [h]

theorem mem_enqueue {i j : Except RelayError Wire.Frame} (h : j ∈ (s.enqueue i).inbound) :
    j ∈ s.inbound ∨ j = i := by
  rcases enqueue_eq s i with he | he
  · rw [he] at h
    exact .inl h
  · rw [he] at h
    simpa using h

/-- An empty queue has room. -/
theorem enqueue_of_nil (h : s.inbound = []) (i : Except RelayError Wire.Frame) :
    s.enqueue i = { s with inbound := [i] } := by
  simp [Session.enqueue, h, inboundCapacity]

theorem enqueue_of_cons {i j : Except RelayError Wire.Frame}
    {q : List (Except RelayError Wire.Frame)} (h : s.inbound = j :: q) :
    ∃ q', (s.enqueue i).inbound = j :: q' := by
  rcases enqueue_eq s i with he | he
  · exact ⟨q, by rw [he, h]⟩
  · exact ⟨q ++ [i], by rw [he, h]; rfl⟩

theorem Receives.connection (h : Receives s log s' log') : s'.connection = s.connection := by
  cases h with
  | beats => rfl
  | queues => exact enqueue_connection s _
  | ends => exact enqueue_connection _ _

theorem Receives.subscriptions (h : Receives s log s' log') :
    s'.subscriptions = s.subscriptions := by
  cases h with
  | beats => rfl
  | queues => exact enqueue_subscriptions s _
  | ends => exact enqueue_subscriptions _ _

theorem Orderly.receives {config : RelayConfig} (h : Orderly config log)
    (hr : Receives s log s' log') : Orderly config log' := by
  cases hr with
  | beats f => exact .took h f
  | queues f => exact .took h f
  | ends => exact h

theorem InStep.receives (h : InStep s log) (hr : Receives s log s' log') : InStep s' log' := by
  cases hr with
  | beats f =>
    exact ⟨h.inUse.took f, by rw [subscriptions_took]; exact h.nextId,
      fun l id hm => (h.known l id hm).mono _, h.inbound⟩
  | queues f =>
    refine ⟨h.inUse.took f, ?_, ?_, ?_⟩
    · rw [enqueue_nextId, subscriptions_took]
      exact h.nextId
    · intro l id hm
      rw [enqueue_subscriptions] at hm
      exact (h.known l id hm).mono _
    · intro e he
      rw [enqueue_alive]
      rcases mem_enqueue he with he | he
      · exact h.inbound e he
      · cases he
  | ends e he =>
    refine ⟨h.inUse, ?_, ?_, ?_⟩
    · rw [enqueue_nextId]
      exact h.nextId
    · intro l id hm
      rw [enqueue_subscriptions] at hm
      exact h.known l id hm
    · intro e' he'
      rw [enqueue_alive]
      rcases mem_enqueue he' with he' | he'
      · exact ⟨rfl, (h.inbound e' he').2⟩
      · cases he'
        exact ⟨rfl, he⟩

theorem Receives.known (h : Receives s log s' log') : Known s' = Known s := by
  unfold Known
  rw [h.subscriptions]

/-- With no request open, a frame answers nothing. -/
theorem Settled.took (h : Settled P log) (f : Wire.Frame) :
    Settled P (log ++ [Exchange.took f]) where
  closed l id ha := h.closed l id (asking_took.1 ha).1
  all l id g hg := by
    rcases replied_took.1 hg with hg | ⟨ha, -⟩
    · exact h.all l id g hg
    · exact absurd ha (h.closed l id)

theorem Settled.receives (h : Settled P log) (hr : Receives s log s' log') : Settled P log' := by
  cases hr with
  | beats f => exact h.took f
  | queues f => exact h.took f
  | ends => exact h

/-- What is written opens no request, unless it is one. -/
theorem Settled.wrote (h : Settled P log) {m : Wire.Message} (hm : m.kind ≠ .subscribe) :
    Settled P (log ++ [Exchange.wrote m]) where
  closed l id ha := by
    rw [asking_wrote.1 ha] at hm
    exact hm rfl
  all l id f hf := h.all l id f (replied_wrote.1 hf)

/-- The first frame after a request is its reply: the queue was emptied, so it stands first. -/
theorem Waiting.receives (h : Waiting P s log l id) (ha : s.alive = true)
    (hr : Receives s log s' log') : Waiting P s' log' l id := by
  cases h with
  | opened asking all queue =>
    have hnil : s.inbound = [] := by
      rcases queue with hq | ⟨e, hdead, -⟩
      · exact hq
      · rw [ha] at hdead
        cases hdead
    cases hr with
    | beats f hf =>
      refine .opened (asking_took.2 ⟨asking, hf⟩) ?_ queue
      intro l' id' g hg
      rcases replied_took.1 hg with hg | ⟨-, -, hno⟩
      · exact all l' id' g hg
      · exact absurd hf hno
    | queues f hf =>
      rw [enqueue_of_nil hnil]
      refine .arrived f [] (fun l' id' hask => hf (asking_took.1 hask).2) rfl
        (replied_took.2 (.inr ⟨asking, rfl, hf⟩)) ?_
      intro l' id' g hg
      rcases replied_took.1 hg with hg | ⟨hask, rfl, -⟩
      · exact .inl (all l' id' g hg)
      · obtain ⟨rfl, rfl⟩ := asking.unique hask
        exact .inr ⟨rfl, rfl, rfl⟩
    | ends e =>
      rw [enqueue_of_nil (s := { s with alive := false }) hnil]
      exact .opened asking all (.inr ⟨e, rfl, rfl⟩)
  | arrived f q closed queue reply all =>
    have hclosed : ∀ g : Wire.Frame, ∀ l' id', ¬ Asking (log ++ [Exchange.took g]) l' id' :=
      fun g l' id' hask => closed l' id' (asking_took.1 hask).1
    have hall : ∀ g : Wire.Frame, ∀ l' id' g', Replied (log ++ [Exchange.took g]) l' id' g' →
        P l' id' g' ∨ (l' = l ∧ id' = id ∧ g' = f) := by
      intro g l' id' g' hg
      rcases replied_took.1 hg with hg | ⟨hask, -⟩
      · exact all l' id' g' hg
      · exact absurd hask (closed l' id')
    cases hr with
    | beats g hg => exact .arrived f q (hclosed g) queue (reply.mono _) (hall g)
    | queues g hg =>
      obtain ⟨q', hq'⟩ := enqueue_of_cons (i := .ok g) queue
      exact .arrived f q' (hclosed g) hq' (reply.mono _) (hall g)
    | ends e =>
      obtain ⟨q', hq'⟩ := enqueue_of_cons (s := { s with alive := false }) (i := .error e) queue
      exact .arrived f q' closed hq' reply all

/-- A frame that stands first in the queue is the reply. -/
theorem Waiting.arrival (h : Waiting P s log l id) {f : Wire.Frame}
    {q : List (Except RelayError Wire.Frame)} (hq : s.inbound = .ok f :: q) :
    (∀ l' id', ¬ Asking log l' id') ∧ Replied log l id f ∧
      ∀ l' id' g, Replied log l' id' g → P l' id' g ∨ (l' = l ∧ id' = id ∧ g = f) := by
  cases h with
  | opened asking all queue =>
    rcases queue with hq' | ⟨e, -, hq'⟩
    · rw [hq] at hq'
      cases hq'
    · rw [hq] at hq'
      cases hq'
  | arrived g q' closed queue reply all =>
    rw [hq] at queue
    cases queue
    exact ⟨closed, reply, all⟩

end Receiving

/-- What stops the reader is a broken connection. -/
theorem isConnectionError_of_next {x x' : Connection} {e : RelayError}
    (h : x.next = (.failure e, x')) : e.isConnectionError = true := by
  unfold Connection.next at h
  split at h
  · cases h
  · cases h; rfl
  · split at h
    · cases h; rfl
    · cases h

/-- What the reader does, in terms of the session and the log of its connection. -/
theorem receives_of_read {c c' : Client} (h : c.read = some c') :
    ∃ s s' log log', c.session = some s ∧ s.alive = true ∧ c.logs[s.connection]? = some log ∧
      Receives s log s' log' ∧ c'.session = some s' ∧ c'.logs = c.logs.set s.connection log' ∧
      c'.config = c.config ∧ c'.calls = c.calls := by
  obtain ⟨s, x, x', hs, ha, hx, hcase⟩ := read_cases h
  have hlog : c.logs[s.connection]? = some x.log := by rw [Client.logs_getElem?, hx]; rfl
  have hlogs := c.onConnection_logs s.connection x'
  rcases hcase with ⟨f, hn, hf, rfl⟩ | ⟨f, hn, hf, rfl⟩ | ⟨e, hn, rfl⟩
  · rw [(next_log hn).1 f rfl] at hlogs
    exact ⟨s, _, _, _, hs, ha, hlog, .beats f hf, rfl, hlogs, rfl, rfl⟩
  · rw [(next_log hn).1 f rfl] at hlogs
    exact ⟨s, _, _, _, hs, ha, hlog, .queues f hf, rfl, hlogs, rfl, rfl⟩
  · rw [(next_log hn).2 (by nofun)] at hlogs
    exact ⟨s, _, _, _, hs, ha, hlog, .ends e (isConnectionError_of_next hn), rfl, hlogs, rfl, rfl⟩

end Relay
end MarketFeed
