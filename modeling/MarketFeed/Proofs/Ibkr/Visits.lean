import MarketFeed.Proofs.Ibkr.Sessions
import MarketFeed.Proofs.Ibkr.Tickers

/-!
# MarketFeed.Proofs.Ibkr.Visits

The sessions of a stream, as they are seen in a history.

* `received`, `accepted` — the tickers that the consumer took, and those that entered its queue.
* `Visit`, `visits` — a history of a stream, cut where its sessions begin.
* `Treats`, `treats_of_happens` — what an event does to a stream that is there.
-/

namespace MarketFeed
namespace Ibkr

/-! ## What is seen of a stream -/

/-- The tickers that the consumer of a stream takes in an incident. -/
def receivedAt (id : Nat) (x : Incident (Timed Connector) Event) : List Ticker :=
  match x.event with
  | .receive i =>
    if i = id then
      match (x.before.world.receive i).1 with
      | .item ticker => [ticker]
      | .empty => []
      | .ended => []
    else []
  | _ => []

/-- The tickers that enter the queue of a stream in an incident: those behind the ones that were
there before. -/
def acceptedAt (id : Nat) (x : Incident (Timed Connector) Event) : List Ticker :=
  match x.before.world.stream? id, x.after.world.stream? id with
  | some s, some s' => s'.queue.items.drop s.queue.items.length
  | _, _ => []

/-- The position from which a stream receives events, if it begins to. -/
def takenOf? (c : Connector) (s s' : Stream) : Option Gateway.Subscription :=
  match s.stage, s'.stage with
  | .connecting _, .pacing _ => some c.gateway.subscribe
  | _, _ => none

def takenAt? (id : Nat) (x : Incident (Timed Connector) Event) : Option Gateway.Subscription :=
  match x.before.world.stream? id, x.after.world.stream? id with
  | some s, some s' => takenOf? x.before.world s s'
  | _, _ => none

/-- The batches that a stream is told to be lost when it goes on. -/
def lostOf (c : Connector) (s : Stream) : List Nat :=
  match s.stage with
  | .reading events =>
    match c.gateway.hear events with
    | .lagged position => List.range' events.position (position - events.position)
    | _ => []
  | _ => []

def lostAt (id : Nat) (x : Incident (Timed Connector) Event) : List Nat :=
  match x.event with
  | .move (.stream i) =>
    if i = id then ((x.before.world.stream? id).map (lostOf x.before.world)).getD [] else []
  | _ => []

def received (id : Nat) (h : List (Incident (Timed Connector) Event)) : List Ticker :=
  h.flatMap (receivedAt id)

def accepted (id : Nat) (h : List (Incident (Timed Connector) Event)) : List Ticker :=
  h.flatMap (acceptedAt id)

/-! ## Cut into sessions -/

/-- What is seen of a session. -/
structure Visit where
  deeds : List Deed
  /-- From where on it received events. -/
  from? : Option Gateway.Subscription
  /-- The positions of the batches that it was told to be lost. -/
  lost : List Nat
  /-- What it put into the queue to the consumer. -/
  tickers : List Ticker
  deriving DecidableEq

namespace Visit

def empty : Visit := ⟨[], none, [], []⟩

def append (v w : Visit) : Visit :=
  ⟨v.deeds ++ w.deeds, v.from?.or w.from?, v.lost ++ w.lost, v.tickers ++ w.tickers⟩

@[simp]
theorem append_empty (v : Visit) : v.append empty = v := by
  simp [append, empty]

/-- The market data are cancelled; unless the consumer has gone, the gateway is disconnected. -/
def close (contract : Contract) (gone : Bool) (v : Visit) : Visit :=
  { v with
    deeds := v.deeds ++ .calls (.cancel contract) :: if gone then [] else [.calls .disconnect] }

end Visit

/-- What is seen of a stream when it goes on. -/
def visitOf (c : Connector) (s s' : Stream) : Visit :=
  ⟨deedsOf c s, takenOf? c s s', lostOf c s, s'.queue.items.drop s.queue.items.length⟩

def visitAt (id : Nat) (x : Incident (Timed Connector) Event) : Visit :=
  ⟨deedsAt id x, takenAt? id x, lostAt id x, acceptedAt id x⟩

/-- Another session begins when the pause is over. -/
def renews (s s' : Stream) : Bool :=
  match s.stage, s'.stage with
  | .pausing _, .connecting _ => true
  | _, _ => false

/-- In an incident a session of a stream begins, be it the first. -/
def beginsAt (id : Nat) (x : Incident (Timed Connector) Event) : Bool :=
  match x.before.world.stream? id, x.after.world.stream? id with
  | none, some _ => true
  | some s, some s' => renews s s'
  | _, none => false

/-- An incident begins a session, or it belongs to the last one. -/
def recordAt (id : Nat) (vs : List Visit) (x : Incident (Timed Connector) Event) : List Visit :=
  if beginsAt id x then vs ++ [visitAt id x]
  else vs.dropLast ++ (vs.getLast?.map (·.append (visitAt id x))).toList

/-- The sessions of a stream in a history. -/
def visits (id : Nat) (h : List (Incident (Timed Connector) Event)) : List Visit :=
  h.foldl (recordAt id) []

section Seen

variable {c c' : Connector} {now id : Nat} {t t' : Timed Connector} {e : Event} {s s' : Stream}
  {vs : List Visit} {v : Visit} (h : List (Incident (Timed Connector) Event))
  (x : Incident (Timed Connector) Event)

theorem received_concat : received id (h ++ [x]) = received id h ++ receivedAt id x :=
  flatMap_concat h x _

theorem accepted_concat : accepted id (h ++ [x]) = accepted id h ++ acceptedAt id x :=
  flatMap_concat h x _

theorem visits_concat : visits id (h ++ [x]) = recordAt id (visits id h) x := by
  rw [visits, List.foldl_append]
  rfl

variable {h x}

theorem recordAt_of_begins (hbegins : beginsAt id x = true) :
    recordAt id vs x = vs ++ [visitAt id x] := if_pos hbegins

theorem recordAt_concat (hbegins : beginsAt id x = false) :
    recordAt id (vs ++ [v]) x = vs ++ [v.append (visitAt id x)] := by
  rw [recordAt, hbegins, if_neg Bool.false_ne_true, List.dropLast_concat, List.getLast?_concat]
  rfl

theorem recordAt_nil (hbegins : beginsAt id x = false) : recordAt id [] x = [] := by
  rw [recordAt, hbegins]
  rfl

theorem receive_queue (q : Channel Ticker) :
    q.receive.2 = { q with items := q.items.tail } := by
  obtain ⟨capacity, items, closed, ended⟩ := q
  cases items <;> rfl

theorem receivedAt_of_ne (he : e ≠ .receive id) : receivedAt id ⟨t, e, t'⟩ = [] := by
  unfold receivedAt
  split
  · rename_i i hi
    refine if_neg ?_
    rintro rfl
    exact he hi
  · rfl

theorem receivedAt_receive (hs : t.world.stream? id = some s) :
    receivedAt id ⟨t, .receive id, t'⟩ = s.queue.items.take 1 := by
  simp only [receivedAt, Connector.receive, hs, if_true, Channel.receive]
  cases s.queue.items with
  | nil => cases s.queue.ended <;> rfl
  | cons a rest => rfl

theorem receivedAt_of_absent (hs : t.world.stream? id = none) :
    receivedAt id ⟨t, e, t'⟩ = [] := by
  by_cases he : e = .receive id
  · subst he
    simp only [receivedAt, Connector.receive, hs, if_true]
  · exact receivedAt_of_ne he

theorem acceptedAt_of_some (hs : t.world.stream? id = some s)
    (hs' : t'.world.stream? id = some s') :
    acceptedAt id ⟨t, e, t'⟩ = s'.queue.items.drop s.queue.items.length := by
  simp only [acceptedAt, hs, hs']

theorem lostAt_of_ne (he : e ≠ .move (.stream id)) : lostAt id ⟨t, e, t'⟩ = [] := by
  unfold lostAt
  split
  · rename_i i hi
    refine if_neg ?_
    rintro rfl
    exact he hi
  · rfl

theorem visitAt_goes (hs : t.world.stream? id = some s) (hs' : t'.world.stream? id = some s') :
    visitAt id ⟨t, .move (.stream id), t'⟩ = visitOf t.world s s' := by
  simp only [visitAt, visitOf, deedsAt_stream hs, takenAt?, lostAt, acceptedAt, hs, hs', if_true,
    Option.map_some, Option.getD_some]

/-- Whatever else happens to a stream, nothing is seen of it but what enters its queue. -/
theorem visitAt_of_ne (he : e ≠ .move (.stream id)) (hs : t.world.stream? id = some s)
    (hs' : t'.world.stream? id = some s') (htaken : takenOf? t.world s s' = none)
    (hle : s'.queue.items.length ≤ s.queue.items.length) :
    visitAt id ⟨t, e, t'⟩ = .empty := by
  simp only [visitAt, deedsAt_of_ne he, lostAt_of_ne he, acceptedAt_of_some hs hs', takenAt?, hs,
    hs', htaken, List.drop_eq_nil_of_le hle]
  rfl

theorem visitAt_of_absent (hs : t.world.stream? id = none) :
    visitAt id ⟨t, e, t'⟩ = .empty := by
  have hlost : lostAt id ⟨t, e, t'⟩ = [] := by
    by_cases he : e = .move (.stream id)
    · simp only [lostAt, he, hs, Option.map_none, Option.getD_none, ite_self]
    · exact lostAt_of_ne he
  simp only [visitAt, deedsAt_of_absent hs, takenAt?, acceptedAt, hs, hlost]
  rfl

theorem beginsAt_of_some (hs : t.world.stream? id = some s) (hs' : t'.world.stream? id = some s') :
    beginsAt id ⟨t, e, t'⟩ = renews s s' := by
  simp only [beginsAt, hs, hs']

end Seen

/-! ## What an event does to a stream -/

/-- What an event does to a stream that is there. -/
inductive Treats (id : Nat) (t : Timed Connector) (e : Event) (t' : Timed Connector) (s : Stream) :
    Stream → Prop where
  | goes {s' : Stream} (he : e = .move (.stream id))
      (hg : StreamGoes t.now t.world s s' t'.world) : Treats id t e t' s s'
  | notices {s' : Stream} (he : e = .move (.notice id))
      (hn : Notices t.world s s' t'.world) : Treats id t e t' s s'
  | takes (he : e = .receive id) :
      Treats id t e t' s { s with queue := { s.queue with items := s.queue.items.tail } }
  | leaves (he : e = .drop id) : Treats id t e t' s { s with queue := s.queue.close }
  | stays (he : e ≠ .move (.stream id)) (hr : e ≠ .receive id) : Treats id t e t' s s

section Events

variable {c c' : Connector} {now id : Nat} {t t' : Timed Connector} {e : Event} {s s' : Stream}

theorem treats_of_happens (he : happens e t = some t') (hs : t.world.stream? id = some s) :
    ∃ s', t'.world.stream? id = some s' ∧ Treats id t e t' s s' := by
  have hid := id_of_stream? hs
  cases happening_of_happens he with
  | @goes s₀ s' c' hs₀ hg =>
    by_cases hne : s₀.id = id
    · subst hne
      cases hs.symm.trans hs₀
      exact ⟨s', hg.stream? hs, .goes rfl hg⟩
    · exact ⟨s, (hg.stream?_of_ne hne).trans hs, .stays (by simpa using hne) (by simp)⟩
  | @notices s₀ s' c' hs₀ hn =>
    by_cases hne : s₀.id = id
    · subst hne
      cases hs.symm.trans hs₀
      exact ⟨s', hn.stream? hs, .notices rfl hn⟩
    · exact ⟨s, (hn.stream?_of_ne hne).trans hs, .stays (by simp) (by simp)⟩
  | calls hk hg =>
    refine ⟨s, ?_, .stays (by simp) (by simp)⟩
    rw [← hs]
    simp only [Connector.stream?, hg.frame.2.2.1]
  | begins contract =>
    refine ⟨s, ?_, .stays (by simp) (by simp)⟩
    rw [stream?_openStream, hs, Option.some_or]
  | @receives s₀ hs₀ =>
    by_cases hne : s₀.id = id
    · subst hne
      cases hs.symm.trans hs₀
      rw [receive_queue]
      exact ⟨_, stream?_setStream_self (s := { s with queue := _ }) hs, .takes rfl⟩
    · refine ⟨s, ?_, .stays (by simp) (by simpa using hne)⟩
      exact (stream?_setStream_of_ne (s := { s₀ with queue := s₀.queue.receive.2 }) hne).trans hs
  | @drops s₀ hs₀ =>
    by_cases hne : s₀.id = id
    · subst hne
      cases hs.symm.trans hs₀
      exact ⟨_, stream?_setStream_self (s := { s with queue := s.queue.close }) hs, .leaves rfl⟩
    · refine ⟨s, ?_, .stays (by simp) (by simp)⟩
      exact (stream?_setStream_of_ne (s := { s₀ with queue := s₀.queue.close }) hne).trans hs
  | @misses i e hs₀ hmiss =>
    have hne : i ≠ id := by
      rintro rfl
      cases hs.symm.trans hs₀
    refine ⟨s, hs, ?_⟩
    rcases hmiss with rfl | rfl
    · exact .stays (by simp) (by simpa using hne)
    · exact .stays (by simp) (by simp)
  | _ => exact ⟨s, hs, .stays (by simp) (by simp)⟩

/-- What going on does to the queue of a stream: at most it sends a ticker, to an open queue with
room for it. -/
theorem StreamGoes.queue (h : StreamGoes now c s s' c') :
    (∃ ended, s'.queue = { s.queue with ended }) ∨
      s.queue.closed = false ∧ s.queue.items.length < s.queue.capacity ∧
        ∃ ticker, s'.queue = { s.queue with items := s.queue.items ++ [ticker] } := by
  cases h with
  | sends hst hopen hroom hs' => subst hs'; exact .inr ⟨hopen, hroom, _, rfl⟩
  | cancels hst hgate hs' => subst hs'; exact .inl ⟨true, rfl⟩
  | _ => subst_vars; exact .inl ⟨s.queue.ended, rfl⟩

theorem Notices.queue (h : Notices c s s' c') : ∃ ended, s'.queue = { s.queue with ended } := by
  cases h with
  | pausing _ _ hs' => subst hs'; exact ⟨true, rfl⟩
  | _ => subst_vars; exact ⟨s.queue.ended, rfl⟩

end Events

end Ibkr
end MarketFeed
