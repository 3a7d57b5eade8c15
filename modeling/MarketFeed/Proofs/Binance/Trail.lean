import Mathlib.Data.List.Sort
import MarketFeed.Proofs.Binance.Trace

/-!
# MarketFeed.Proofs.Binance.Trail

What is seen of every stream in every history of a connector.

* `Ledger`, `opens_of_happens` — the openings are numbered as they were called, and only a stream
  that takes its turn opens the feed.
* `Trail` — all that the trades and turns of a stream keep to. `Trail.next` — whatever happens
  keeps it.
* `Found`, `found_of_history` — so it is of all streams, from a new connector on.
-/

namespace MarketFeed
namespace Binance

/-! ## The openings of a connector -/

section Ledger

variable {t t' : Timed Connector} {e : Event} {c c' : Connector} {s s' : Stream} {now : Nat}

/-- What a connector was made with, and how it counts its openings. -/
structure Ledger (config : Config) (feed : Feed) (c : Connector) : Prop where
  config : c.config = config
  feed : c.feed = feed
  counted : (Connector.openings? c.calls).length = c.openings

/-- What becomes of the openings when nothing is opened. -/
def NoneOpened (c c' : Connector) : Prop :=
  c'.openings = c.openings ∧ Connector.openings? c'.calls = Connector.openings? c.calls

/-- What becomes of the openings when the feed is opened. -/
def OneOpened (now : Nat) (symbol : String) (c c' : Connector) : Prop :=
  c'.openings = c.openings + 1 ∧
    Connector.openings? c'.calls = Connector.openings? c.calls ++ [(now, symbol)]

theorem StreamGoes.opened (h : StreamGoes now c s s' c') :
    turnOf now c s' = some (now, .opened c.openings) ∧ OneOpened now s.symbol c c' ∨
      (turnOf now c s' = none ∨ turnOf now c s' = some (now, .ended)) ∧ NoneOpened c c' := by
  cases h with
  | opens hst hgate hs' =>
    subst hs'
    refine .inl ⟨rfl, rfl, ?_⟩
    simp [Connector.openings?, Connector.openFeed, Connector.setStream, Connector.log]
  | fails hst hdue hs' => subst hs'; exact .inr ⟨.inr rfl, rfl, rfl⟩
  | ends hst hdue hover hs' => subst hs'; exact .inr ⟨.inr rfl, rfl, rfl⟩
  | _ => subst_vars; exact .inr ⟨.inl rfl, rfl, rfl⟩

/-- Only a stream that takes its turn opens the feed. -/
theorem opens_of_happens (h : happens e t = some t') :
    (∃ id s, t.world.stream? id = some s ∧
      turnAt? id ⟨t, e, t'⟩ = some (t.now, .opened t.world.openings) ∧
      OneOpened t.now s.symbol t.world t'.world) ∨ NoneOpened t.world t'.world := by
  cases happening_of_happens h with
  | @goes s s' c' hs hg =>
    rcases hg.opened with ⟨hturn, hopened⟩ | ⟨-, hnone⟩
    · refine .inl ⟨s.id, s, hs, ?_, hopened⟩
      simp [turnAt?, hg.stream? hs, hturn]
    · exact .inr hnone
  | requests hf hgate =>
    refine .inr ⟨rfl, ?_⟩
    simp [Connector.openings?, Connector.request, Connector.log]
  | _ => exact .inr ⟨rfl, rfl⟩

theorem openings?_prefix (h : happens e t = some t') :
    Connector.openings? t.world.calls <+: Connector.openings? t'.world.calls := by
  rcases opens_of_happens h with ⟨id, s, -, -, -, hcalls⟩ | ⟨-, hcalls⟩
  · rw [hcalls]
    exact List.prefix_append _ _
  · exact hcalls ▸ List.prefix_refl _

theorem Ledger.next {config : Config} {feed : Feed} (hl : Ledger config feed t.world)
    (h : happens e t = some t') : Ledger config feed t'.world := by
  obtain ⟨hconfig, hfeed⟩ := configured_of_happens h
  refine ⟨hconfig.trans hl.config, hfeed.trans hl.feed, ?_⟩
  rcases opens_of_happens h with ⟨id, s, -, -, hopenings, hcalls⟩ | ⟨hopenings, hcalls⟩
  · rw [hcalls, hopenings, List.length_append, hl.counted]
    rfl
  · rw [hcalls, hopenings, hl.counted]

end Ledger

theorem Ledger.reconnectDelay {config : Config} {feed : Feed} {c c' : Connector}
    (hl : Ledger config feed c) (hl' : Ledger config feed c') :
    c.reconnectDelay = c'.reconnectDelay := by
  rw [Connector.reconnectDelay, hl.config, ← hl'.config]
  rfl

/-! ## What an incident shows of a stream -/

section Seen

variable {t t' : Timed Connector} {e : Event} {s s' : Stream} {id : Nat}

theorem turnAt?_of_ne (he : e ≠ .move (.stream id)) : turnAt? id ⟨t, e, t'⟩ = none := by
  unfold turnAt?
  split
  · rename_i i hi
    refine if_neg ?_
    intro heq
    subst heq
    exact he hi
  · rfl

theorem turnAt?_stream (hs' : t'.world.stream? id = some s') :
    turnAt? id ⟨t, .move (.stream id), t'⟩ = turnOf t.now t.world s' := by
  simp only [turnAt?, if_true, hs', Option.bind_some]

theorem receivedAt_of_ne (he : e ≠ .receive id) : receivedAt id ⟨t, e, t'⟩ = [] := by
  unfold receivedAt
  split
  · rename_i i hi
    refine if_neg ?_
    intro heq
    subst heq
    exact he hi
  · rfl

theorem receivedAt_receive (hs : t.world.stream? id = some s) :
    receivedAt id ⟨t, .receive id, t'⟩ = s.queue.items.take 1 := by
  simp only [receivedAt, Connector.receive, hs, if_true, Channel.receive]
  cases s.queue.items with
  | nil => cases s.queue.ended <;> rfl
  | cons a rest => rfl

theorem receivedAt_of_absent (hs : t.world.stream? id = none) :
    receivedAt id ⟨t, e, t'⟩ = [] := by
  by_cases he : e = .receive id
  · subst he
    simp only [receivedAt, Connector.receive, hs, if_true]
  · exact receivedAt_of_ne he

theorem acceptedAt_of_some (hs : t.world.stream? id = some s)
    (hs' : t'.world.stream? id = some s') :
    acceptedAt id ⟨t, e, t'⟩ = s'.queue.items.drop s.queue.items.length := by
  simp only [acceptedAt, hs, hs']

theorem acceptedAt_of_absent (hs : t.world.stream? id = none) :
    acceptedAt id ⟨t, e, t'⟩ = [] := by
  simp only [acceptedAt, hs]

theorem receive_queue (q : Channel Trade) :
    q.receive.2 = { q with items := q.items.tail } := by
  obtain ⟨capacity, items, closed, ended⟩ := q
  cases items <;> rfl

/-- What going on does to the queue of a stream: at most it sends a trade, to an open queue with
room for it. -/
theorem StreamGoes.queue {now : Nat} {c c' : Connector} (h : StreamGoes now c s s' c') :
    s'.queue = s.queue ∨ s.queue.closed = false ∧ s.queue.items.length < s.queue.capacity ∧
      ∃ trade, s'.queue = { s.queue with items := s.queue.items ++ [trade] } := by
  cases h with
  | sends hst hopen hroom hs' => subst hs'; exact .inr ⟨hopen, hroom, _, rfl⟩
  | _ => subst_vars; exact .inl rfl

end Seen

/-! ## The trail of a stream -/

/-- What the trades received and accepted and the turns of a stream keep to. -/
structure Trail (feed : Feed) (delay : Nat) (t : Timed Connector) (s : Stream)
    (got all : List Trade) (ts : List (Nat × Turn)) : Prop where
  standing : Standing feed delay s.symbol t.now s.stage ts all
  alternates : Alternates delay ts
  kept : s.queue.closed = false → all = got ++ s.queue.items
  behind : got <+: all
  emptied : s.queue.closed = true → s.queue.items = []
  bounded : 0 < s.queue.capacity ∧ s.queue.items.length ≤ s.queue.capacity
  increasing : (numbers ts).Pairwise (· < ·)
  logged : ∀ time k, (time, .opened k) ∈ ts →
    (Connector.openings? t.world.calls)[k]? = some (time, s.symbol)

namespace Trail

variable {t t' : Timed Connector} {e : Event} {s s' : Stream} {id : Nat} {config : Config}
  {feed : Feed} {delay : Nat} {got all : List Trade} {ts : List (Nat × Turn)}

theorem later (h : Trail feed delay t s got all ts) (hnow : t.now ≤ t'.now)
    (hcalls : Connector.openings? t.world.calls <+: Connector.openings? t'.world.calls) :
    Trail feed delay t' s got all ts :=
  { h with
    standing := h.standing.later hnow
    logged := by
      intro time k hk
      obtain ⟨hlt, heq⟩ := List.getElem?_eq_some_iff.1 (h.logged time k hk)
      rw [List.prefix_iff_getElem?.1 hcalls k hlt, heq] }

/-- The openings of a stream were counted. -/
theorem number_lt (h : Trail feed delay t s got all ts) (hl : Ledger config feed t.world)
    {k : Nat} (hk : k ∈ numbers ts) : k < t.world.openings := by
  obtain ⟨⟨time, turn⟩, hmem, hturn⟩ := List.mem_filterMap.1 hk
  cases turn with
  | opened k' =>
    cases hturn
    rw [← hl.counted]
    exact (List.getElem?_eq_some_iff.1 (h.logged time k hmem)).1
  | ended => cases hturn

/-- The opening that a stream may have come to is numbered and logged. -/
theorem counted (h : Trail feed delay t s got all ts) (hl : Ledger config feed t.world)
    {c' : Connector} (hg : StreamGoes t.now t.world s s' c') :
    (numbers (ts ++ (turnOf t.now t.world s').toList)).Pairwise (· < ·) ∧
      ∀ time k, (time, .opened k) ∈ ts ++ (turnOf t.now t.world s').toList →
        (Connector.openings? c'.calls)[k]? = some (time, s.symbol) := by
  rcases hg.opened with ⟨hturn, -, hcalls⟩ | ⟨hturn, -, hcalls⟩
  · rw [hturn, hcalls, Option.toList_some, numbers_opened]
    refine ⟨?_, ?_⟩
    · rw [List.pairwise_append]
      refine ⟨h.increasing, List.pairwise_singleton _ _, ?_⟩
      intro k hk n hn
      rw [List.mem_singleton] at hn
      exact hn ▸ h.number_lt hl hk
    · intro time k hk
      rcases List.mem_append.1 hk with hk | hk
      · have hold := h.logged time k hk
        rwa [List.getElem?_append_left (List.getElem?_eq_some_iff.1 hold).1]
      · simp only [List.mem_singleton, Prod.mk.injEq, Turn.opened.injEq] at hk
        rw [hk.1, hk.2, ← hl.counted, List.getElem?_concat_length]
  · rw [hcalls]
    refine ⟨?_, ?_⟩
    · rcases hturn with hturn | hturn <;> rw [hturn]
      · simpa using h.increasing
      · rw [Option.toList_some, numbers_ended]
        exact h.increasing
    · intro time k hk
      rcases List.mem_append.1 hk with hk | hk
      · exact h.logged time k hk
      · rcases hturn with hturn | hturn <;> simp [hturn] at hk

/-- A stream that goes on leaves the trail that its turn and its trade belong to. -/
theorem goes (h : Trail feed delay t s got all ts) (hl : Ledger config feed t.world)
    (hdelay : t.world.reconnectDelay = delay) (hnow : t'.now = t.now)
    (hg : StreamGoes t.now t.world s s' t'.world) :
    Trail feed delay t' s' got (all ++ s'.queue.items.drop s.queue.items.length)
      (ts ++ (turnOf t.now t.world s').toList) := by
  obtain ⟨hincreasing, hlogged⟩ := h.counted hl hg
  have hqueue : s'.queue.closed = s.queue.closed ∧ s'.queue.capacity = s.queue.capacity ∧
      s'.queue.items = s.queue.items ++ s'.queue.items.drop s.queue.items.length ∧
      (s.queue.closed = true → s'.queue.items = s.queue.items) ∧
      s'.queue.items.length ≤ s.queue.capacity := by
    rcases hg.queue with hsame | ⟨hopen, hroom, trade, hsent⟩
    · simp [hsame, h.bounded.2]
    · simpa [hsent, hopen] using Nat.succ_le_of_lt hroom
  obtain ⟨hclosed, hcapacity, hitems, hstill, hfew⟩ := hqueue
  exact
    { standing := (h.standing.goes hg hl.feed hdelay).later (Nat.le_of_eq hnow.symm)
      alternates := h.standing.alternates h.alternates hg
      kept := by
        intro hopen
        rw [h.kept (hclosed ▸ hopen), List.append_assoc, ← hitems]
      behind := h.behind.trans (List.prefix_append _ _)
      emptied := by
        intro hshut
        rw [hclosed] at hshut
        rw [hstill hshut, h.emptied hshut]
      bounded := by
        rw [hcapacity]
        exact ⟨h.bounded.1, hfew⟩
      increasing := hincreasing
      logged := by
        rw [hg.frame.2.1]
        exact hlogged }

/-- The consumer takes the first of the trades that wait. -/
theorem receives (h : Trail feed delay t s got all ts) :
    Trail feed delay t { s with queue := s.queue.receive.2 } (got ++ s.queue.items.take 1) all
      ts := by
  rw [receive_queue]
  have hbounded := h.bounded
  refine { h with kept := ?_, behind := ?_, emptied := ?_, bounded := ?_ }
  · intro hopen
    rw [h.kept hopen, List.append_assoc]
    cases s.queue.items <;> rfl
  · cases hclosed : s.queue.closed with
    | true =>
      rw [h.emptied hclosed]
      simpa using h.behind
    | false =>
      rw [h.kept hclosed]
      exact (List.prefix_append_right_inj _).2 (List.take_prefix _ _)
  · intro hshut
    rw [h.emptied hshut]
    rfl
  · refine ⟨hbounded.1, ?_⟩
    rw [List.length_tail]
    exact Nat.le_trans (Nat.sub_le _ _) hbounded.2

/-- Whatever happens, a stream goes on along its trail. -/
theorem next (h : Trail feed delay t s got all ts) (hl : Ledger config feed t.world)
    (hdelay : t.world.reconnectDelay = delay) (hs : t.world.stream? id = some s)
    (he : happens e t = some t') :
    ∃ s', t'.world.stream? id = some s' ∧
      Trail feed delay t' s' (got ++ receivedAt id ⟨t, e, t'⟩) (all ++ acceptedAt id ⟨t, e, t'⟩)
        (ts ++ (turnAt? id ⟨t, e, t'⟩).toList) := by
  have hnow := now_le_of_happens he
  have hcalls := openings?_prefix he
  cases fares_of_happens he id with
  | goes hs₀ hevent htime hg hs' =>
    rw [hs] at hs₀
    cases hs₀
    subst hevent
    refine ⟨_, hs', ?_⟩
    rw [receivedAt_of_ne (by simp), acceptedAt_of_some hs hs', turnAt?_stream hs',
      List.append_nil]
    exact h.goes hl hdelay htime hg
  | notices hs₀ hevent hclosed hs' =>
    rw [hs] at hs₀
    cases hs₀
    refine ⟨_, hs', ?_⟩
    rw [receivedAt_of_ne (by simp [hevent]), acceptedAt_of_some hs hs',
      turnAt?_of_ne (by simp [hevent])]
    simp only [Channel.finish, List.drop_length, Option.toList_none, List.append_nil]
    exact { h.later hnow hcalls with standing := .ended h.standing.told }
  | receives hs₀ hevent hs' =>
    rw [hs] at hs₀
    cases hs₀
    subst hevent
    refine ⟨_, hs', ?_⟩
    have hnone : s.queue.receive.2.items.drop s.queue.items.length = [] := by
      rw [receive_queue, List.drop_eq_nil_iff, List.length_tail]
      exact Nat.sub_le _ _
    rw [receivedAt_receive hs, acceptedAt_of_some hs hs', turnAt?_of_ne (by simp), hnone]
    simp only [Option.toList_none, List.append_nil]
    exact (h.later hnow hcalls).receives
  | drops hs₀ hevent hs' =>
    rw [hs] at hs₀
    cases hs₀
    refine ⟨_, hs', ?_⟩
    rw [receivedAt_of_ne (by simp [hevent]), acceptedAt_of_some hs hs',
      turnAt?_of_ne (by simp [hevent])]
    simp only [Channel.close, List.drop_nil, Option.toList_none, List.append_nil]
    exact
      { h.later hnow hcalls with
        kept := by simp
        emptied := fun _ => rfl
        bounded := ⟨h.bounded.1, Nat.zero_le _⟩ }
  | begins hs₀ hevent hid hs' =>
    rw [hs] at hs₀
    cases hs₀
  | stays hs₀ hevent hreceive =>
    refine ⟨s, hs₀.trans hs, ?_⟩
    have hnot : e ≠ .receive id := by
      intro hreceived
      rw [hreceive hreceived] at hs
      cases hs
    rw [receivedAt_of_ne hnot, acceptedAt_of_some hs (hs₀.trans hs), turnAt?_of_ne hevent]
    simp only [List.drop_length, Option.toList_none, List.append_nil]
    exact h.later hnow hcalls

end Trail

/-! ## All streams of a history -/

/-- What is found of the streams of a connector after a history: a stream that is there has left
its trail, and there is none of a stream that is not there. -/
structure Found (config : Config) (feed : Feed) (h : List (Incident (Timed Connector) Event))
    (t : Timed Connector) : Prop where
  ledger : Ledger config feed t.world
  present : ∀ id s, t.world.stream? id = some s →
    Trail feed t.world.reconnectDelay t s (received id h) (accepted id h) (turns id h)
  absent : ∀ id, t.world.stream? id = none →
    received id h = [] ∧ accepted id h = [] ∧ turns id h = []
  /-- Every opening is the turn of a stream. -/
  covered : ∀ k < t.world.openings, ∃ id, k ∈ numbers (turns id h)

section Histories

variable {t t' : Timed Connector} {e : Event} {id : Nat} {config : Config} {feed : Feed}
  {h : List (Incident (Timed Connector) Event)} {x : Incident (Timed Connector) Event}

theorem received_concat : received id (h ++ [x]) = received id h ++ receivedAt id x :=
  flatMap_concat h x _

theorem accepted_concat : accepted id (h ++ [x]) = accepted id h ++ acceptedAt id x :=
  flatMap_concat h x _

theorem turns_concat : turns id (h ++ [x]) = turns id h ++ (turnAt? id x).toList :=
  filterMap_concat h x _

/-- A new stream has its trail before it. -/
theorem Trail.begins {delay id capacity : Nat} {symbol : String} (hpos : 0 < capacity) :
    Trail feed delay t ⟨id, symbol, .new capacity, .pacing⟩ [] [] [] where
  standing := .pacing .nil (by simp)
  alternates := .nil
  kept := fun _ => rfl
  behind := List.prefix_refl _
  emptied := fun _ => rfl
  bounded := ⟨hpos, Nat.zero_le _⟩
  increasing := .nil
  logged := by simp

theorem queueCapacity_pos (c : Connector) : 0 < c.queueCapacity :=
  Nat.lt_of_lt_of_le Nat.zero_lt_one (Nat.le_max_right _ _)

namespace Found

theorem absent_happens (hf : Found config feed h t) (he : happens e t = some t')
    (hs' : t'.world.stream? id = none) :
    received id (h ++ [⟨t, e, t'⟩]) = [] ∧ accepted id (h ++ [⟨t, e, t'⟩]) = [] ∧
      turns id (h ++ [⟨t, e, t'⟩]) = [] := by
  rw [received_concat, accepted_concat, turns_concat]
  cases fares_of_happens he id with
  | stays hs hevent hreceive =>
    have hs₀ := hs.symm.trans hs'
    obtain ⟨hreceived, haccepted, hturns⟩ := hf.absent id hs₀
    rw [hreceived, haccepted, hturns, receivedAt_of_absent hs₀, acceptedAt_of_absent hs₀,
      turnAt?_of_ne hevent]
    exact ⟨rfl, rfl, rfl⟩
  | goes _ _ _ _ hs => rw [hs] at hs'; cases hs'
  | notices _ _ _ hs => rw [hs] at hs'; cases hs'
  | receives _ _ hs => rw [hs] at hs'; cases hs'
  | drops _ _ hs => rw [hs] at hs'; cases hs'
  | begins _ _ _ hs => rw [hs] at hs'; cases hs'

theorem present_happens (hf : Found config feed h t) (he : happens e t = some t') {s' : Stream}
    (hs' : t'.world.stream? id = some s') :
    Trail feed t'.world.reconnectDelay t' s' (received id (h ++ [⟨t, e, t'⟩]))
      (accepted id (h ++ [⟨t, e, t'⟩])) (turns id (h ++ [⟨t, e, t'⟩])) := by
  have hdelay : t'.world.reconnectDelay = t.world.reconnectDelay := by
    rw [Connector.reconnectDelay, (configured_of_happens he).1]
    rfl
  rw [received_concat, accepted_concat, turns_concat, hdelay]
  cases hs : t.world.stream? id with
  | some s =>
    obtain ⟨s'', hs'', htrail⟩ := (hf.present id s hs).next hf.ledger rfl hs he
    rw [hs'] at hs''
    cases hs''
    exact htrail
  | none =>
    obtain ⟨hreceived, haccepted, hturns⟩ := hf.absent id hs
    rw [hreceived, haccepted, hturns, receivedAt_of_absent hs, acceptedAt_of_absent hs]
    cases fares_of_happens he id with
    | begins _ hevent _ hnew =>
      rw [hs'] at hnew
      cases hnew
      rw [turnAt?_of_ne (by simp [hevent])]
      exact Trail.begins (queueCapacity_pos _)
    | stays hsame _ _ => rw [hsame, hs] at hs'; cases hs'
    | goes hs₀ _ _ _ _ => rw [hs] at hs₀; cases hs₀
    | notices hs₀ _ _ _ => rw [hs] at hs₀; cases hs₀
    | receives hs₀ _ _ => rw [hs] at hs₀; cases hs₀
    | drops hs₀ _ _ => rw [hs] at hs₀; cases hs₀

theorem covered_happens (hf : Found config feed h t) (he : happens e t = some t') {k : Nat}
    (hk : k < t'.world.openings) : ∃ id, k ∈ numbers (turns id (h ++ [⟨t, e, t'⟩])) := by
  have hold : k < t.world.openings → ∃ id, k ∈ numbers (turns id (h ++ [⟨t, e, t'⟩])) := by
    intro hlt
    obtain ⟨id, hid⟩ := hf.covered k hlt
    refine ⟨id, ?_⟩
    rw [turns_concat, numbers_append]
    exact List.mem_append_left _ hid
  rcases opens_of_happens he with ⟨id, s, -, hturn, hopenings, -⟩ | ⟨hopenings, -⟩
  · rw [hopenings] at hk
    rcases Nat.lt_succ_iff_lt_or_eq.1 hk with hlt | rfl
    · exact hold hlt
    · refine ⟨id, ?_⟩
      rw [turns_concat, hturn, Option.toList_some, numbers_opened]
      exact List.mem_append_right _ (List.mem_singleton_self _)
  · rw [hopenings] at hk
    exact hold hk

theorem next (hf : Found config feed h t) (he : happens e t = some t') :
    Found config feed (h ++ [⟨t, e, t'⟩]) t' where
  ledger := hf.ledger.next he
  present _ _ hs' := hf.present_happens he hs'
  absent _ hs' := hf.absent_happens he hs'
  covered _ hk := hf.covered_happens he hk

/-- A stream that is alone has all the openings. -/
theorem numbers_of_alone (hf : Found config feed h t) {s : Stream}
    (hs : t.world.stream? id = some s) (halone : ∀ i ≠ id, t.world.stream? i = none) :
    numbers (turns id h) = List.range t.world.openings := by
  refine (hf.present id s hs).increasing.eq_of_mem_iff List.pairwise_lt_range ?_
  intro k
  rw [List.mem_range]
  refine ⟨(hf.present id s hs).number_lt hf.ledger, ?_⟩
  intro hk
  obtain ⟨i, hi⟩ := hf.covered k hk
  by_cases hid : i = id
  · rwa [hid] at hi
  · rw [(hf.absent i (halone i hid)).2.2] at hi
    cases hi

end Found

theorem found_of_new {server : Http.Server} {c : Connector} (start : Nat)
    (hc : Connector.new config server feed = .ok c) : Found config feed [] ⟨start, c⟩ := by
  obtain ⟨l, -, rfl⟩ := new_eq hc
  exact
    { ledger := ⟨rfl, rfl, rfl⟩
      present := by simp [Connector.stream?]
      absent := fun _ _ => ⟨rfl, rfl, rfl⟩
      covered := fun k hk => absurd hk (Nat.not_lt_zero k) }

/-- What is found of the streams after any history of a new connector. -/
theorem found_of_history {server : Http.Server} {c : Connector} {start : Nat}
    (hc : Connector.new config server feed = .ok c)
    (hist : History happens ⟨start, c⟩ h t) : Found config feed h t := by
  induction hist with
  | nil => exact found_of_new start hc
  | snoc _ he ih => exact ih.next he

end Histories
end Binance
end MarketFeed
