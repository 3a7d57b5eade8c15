import MarketFeed.Binance.Connector
import MarketFeed.Proofs.Binance.Offer
import MarketFeed.Proofs.Pacing.Window
import MarketFeed.Proofs.Tasks.History
import MarketFeed.Proofs.Tasks.Numbered

/-!
# MarketFeed.Proofs.Binance.Steps

What can happen to a connector, and what it comes to for one of its streams.

* `Event`, `happens` — its tasks go on in any order, others call it, consumers take trades or go,
  and time passes.
* `StreamGoes`, `goOn_cases` — all that a stream can do next.
* `Happening`, `happening_of_happens` — all that can happen, and what comes of it.
* `Fares`, `fares_of_happens` — what an event does to one stream.
* `Paces`, `paces_of_happens` — what an event does to the gate: every call of the venue takes a
  grant at the time of the call.
-/

namespace MarketFeed
namespace Binance

/-! ## Events -/

inductive Event where
  | move (m : Connector.Move)
  | fetch (symbol : String) (request : HistoryRequest)
  /-- The result of a fetch is taken, or the fetch is given up. -/
  | forget (id : Nat)
  | openStream (symbol : String)
  | receive (id : Nat)
  /-- The consumer of a stream goes. -/
  | drop (id : Nat)
  | observe
  | takeCount
  | wait (time : Nat)

/-- A fetch is forgotten, and it calls no longer. -/
def Connector.forget (c : Connector) (id : Nat) : Connector :=
  { c.forgetFetch id with gate := c.gate.leave (.fetch id) }

def happens (e : Event) (t : Timed Connector) : Option (Timed Connector) :=
  match e with
  | .move m => (Connector.step t.now m t.world).map fun c => { t with world := c }
  | .fetch symbol request => some (t.update fun c => (c.fetch symbol request).2)
  | .forget id => some (t.update fun c => c.forget id)
  | .openStream symbol => some (t.update fun c => (c.openStream symbol).2)
  | .receive id => some (t.update fun c => (c.receive id).2)
  | .drop id => some (t.update fun c => c.dropStream id)
  | .observe => some (t.update fun c => c.observe)
  | .takeCount => some (t.update fun c => c.takeCount.2)
  | .wait time => if t.now ≤ time then some { t with now := time } else none

/-- A new connector: nothing has happened, and no one waits. -/
theorem new_eq {config : Config} {server : Http.Server} {feed : Feed} {c : Connector}
    (h : Connector.new config server feed = .ok c) :
    ∃ l, Limiter.new config.rateLimit (.ofSeconds config.rateWindowSeconds.toNat) = .ok l ∧
      c = ⟨config, .new l, server, feed, 0, [], [], 0, [], none⟩ := by
  unfold Connector.new at h
  split at h
  · rename_i l hl
    cases h
    exact ⟨l, hl, rfl⟩
  · cases h

/-! ## One stream among others -/

section Views

variable {c : Connector} {s t : Stream} {id : Nat}

theorem id_of_stream? (h : c.stream? id = some s) : s.id = id := by
  simpa using List.find?_some h

theorem stream?_setStream_self (h : c.stream? s.id = some t) :
    (c.setStream s).stream? s.id = some s := find?_update_self Stream.id (fun _ _ => rfl) h

theorem stream?_setStream_of_ne (h : s.id ≠ id) : (c.setStream s).stream? id = c.stream? id :=
  find?_update_of_ne Stream.id (fun _ _ => rfl) h.symm

end Views

/-! ## What a stream does -/

/-- What a stream does when it goes on: the stream and the connector after it. -/
inductive StreamGoes (now : Nat) (c : Connector) (s : Stream) : Stream → Connector → Prop where
  | opens {gate : Gate Caller} {s' : Stream} (hst : s.stage = .pacing)
      (hgate : c.gate.acquire? now (.stream s.id) = some gate)
      (hs' : s' = { s with
        stage := .opening (now + (c.feed.opening c.openings s.symbol).delay)
          (c.feed.opening c.openings s.symbol).frames }) :
      StreamGoes now c s s' ({ c with gate }.openFeed now s)
  | connects {due : Nat} {f : Frames} {s' : Stream} (hst : s.stage = .opening due (some f))
      (hdue : due ≤ now) (hs' : s' = { s with stage := .reading f 0 now }) :
      StreamGoes now c s s' (c.setStream s')
  | fails {due : Nat} {s' : Stream} (hst : s.stage = .opening due none) (hdue : due ≤ now)
      (hs' : s' = { s with stage := .pausing (now + c.reconnectDelay) }) :
      StreamGoes now c s s' (c.setStream s')
  | ends {f : Frames} {next resume : Nat} {s' : Stream} (hst : s.stage = .reading f next resume)
      (hdue : resume ≤ now) (hover : f.IsOver next)
      (hs' : s' = { s with stage := .pausing (now + c.reconnectDelay) }) :
      StreamGoes now c s s' (c.setStream s')
  /-- An item without a trade is passed over. -/
  | skips {f : Frames} {next resume due : Nat} {x : FeedItem} {s' : Stream}
      (hst : s.stage = .reading f next resume) (hdue : resume ≤ now) (hx : f.item next = some x)
      (hgood : x.isBad = false) (htrade : x.trade? = none)
      (hs' : s' = { s with stage := .reading f (next + 1) due }) :
      StreamGoes now c s s' (c.setStream s')
  | reads {f : Frames} {next resume : Nat} {x : FeedItem} {trade : Trade} {s' : Stream}
      (hst : s.stage = .reading f next resume) (hdue : resume ≤ now) (hx : f.item next = some x)
      (hgood : x.isBad = false) (htrade : x.trade? = some trade)
      (hs' : s' = { s with stage := .sending trade f (next + 1) }) :
      StreamGoes now c s s' (c.setStream s')
  | sends {trade : Trade} {f : Frames} {next : Nat} {s' : Stream}
      (hst : s.stage = .sending trade f next) (hopen : s.queue.closed = false)
      (hroom : s.queue.items.length < s.queue.capacity)
      (hs' : s' = { s with
        queue := { s.queue with items := s.queue.items ++ [trade] }
        stage := .reading f next now }) :
      StreamGoes now c s s' (c.setStream s')
  | resumes {due : Nat} {s' : Stream} (hst : s.stage = .pausing due) (hdue : due ≤ now)
      (hs' : s' = { s with stage := .pacing }) :
      StreamGoes now c s s' { c.setStream s' with gate := c.gate.join (.stream s.id) }

theorem readItem_cases {c c' : Connector} {now : Nat} {s : Stream} {f : Frames} {next resume : Nat}
    (hst : s.stage = .reading f next resume) (hdue : resume ≤ now)
    (h : c.readItem now s f next = some c') : ∃ s', StreamGoes now c s s' c' := by
  unfold Connector.readItem at h
  split at h
  · rename_i hnone
    split at h
    · rename_i hcloses
      cases h
      exact ⟨_, .ends hst hdue (.inr ⟨hnone, hcloses⟩) rfl⟩
    · cases h
  · rename_i hx
    cases h
    exact ⟨_, .ends hst hdue (.inl ⟨_, hx, rfl⟩) rfl⟩
  · rename_i hx
    cases h
    exact ⟨_, .skips hst hdue hx rfl rfl rfl⟩
  · rename_i frame hx
    split at h
    · rename_i hread
      cases h
      refine ⟨_, .ends hst hdue (.inl ⟨_, hx, ?_⟩) rfl⟩
      rw [FeedItem.isBad, hread]
    · rename_i hread
      cases h
      refine ⟨_, .skips hst hdue hx ?_ ?_ rfl⟩
      · rw [FeedItem.isBad, hread]
      · rw [FeedItem.trade?, hread]
    · rename_i hread
      cases h
      refine ⟨_, .reads hst hdue hx ?_ ?_ rfl⟩
      · rw [FeedItem.isBad, hread]
      · rw [FeedItem.trade?, hread]

theorem goOn_cases {c c' : Connector} {now : Nat} {s : Stream} (h : c.goOn now s = some c') :
    ∃ s', StreamGoes now c s s' c' := by
  unfold Connector.goOn at h
  split at h
  · rename_i hst
    obtain ⟨gate, hgate, rfl⟩ := Option.map_eq_some_iff.1 h
    exact ⟨_, .opens hst hgate rfl⟩
  · rename_i due frames hst
    split at h
    · rename_i hdue
      cases frames with
      | some f =>
        cases h
        exact ⟨_, .connects hst hdue rfl⟩
      | none =>
        cases h
        exact ⟨_, .fails hst hdue rfl⟩
    · cases h
  · rename_i hst
    split at h
    · rename_i hdue
      exact readItem_cases hst hdue h
    · cases h
  · rename_i hst
    split at h
    · cases h
    · rename_i hopen
      obtain ⟨queue, hqueue, rfl⟩ := Option.map_eq_some_iff.1 h
      unfold Channel.send? at hqueue
      split at hqueue
      · rename_i hroom
        cases hqueue
        exact ⟨_, .sends hst (by simpa using hopen) hroom rfl⟩
      · cases hqueue
  · rename_i hst
    split at h
    · rename_i hdue
      cases h
      exact ⟨_, .resumes hst hdue rfl⟩
    · cases h
  · cases h

namespace StreamGoes

variable {c c' : Connector} {now : Nat} {s s' : Stream}

/-- What goes on in a stream changes nothing of the feed, the bounds and the fetches, and of the
streams only itself. -/
theorem frame (h : StreamGoes now c s s' c') :
    s'.id = s.id ∧ s'.symbol = s.symbol ∧ c'.streams = (c.setStream s').streams ∧
      c'.feed = c.feed ∧ c'.config = c.config ∧ c'.nextId = c.nextId ∧ c'.fetches = c.fetches := by
  cases h <;> subst_vars <;> exact ⟨rfl, rfl, rfl, rfl, rfl, rfl, rfl⟩

theorem stream? (h : StreamGoes now c s s' c') {t : Stream} (hs : c.stream? s.id = some t) :
    c'.stream? s.id = some s' := by
  obtain ⟨hid, -, hstreams, -⟩ := h.frame
  rw [← hid] at hs
  rw [Connector.stream?, hstreams, ← hid]
  exact stream?_setStream_self hs

theorem stream?_of_ne (h : StreamGoes now c s s' c') {id : Nat} (hne : s.id ≠ id) :
    c'.stream? id = c.stream? id := by
  obtain ⟨hid, -, hstreams, -⟩ := h.frame
  rw [Connector.stream?, hstreams]
  exact stream?_setStream_of_ne (hid ▸ hne)

end StreamGoes

/-! ## What an event does -/

theorem notice_cases {c c' : Connector} {s : Stream} (h : c.notice s = some c') :
    s.queue.closed = true ∧ Connector.looksForConsumer s.stage = true ∧
      c' = { c.setStream { s with stage := .ended, queue := s.queue.finish } with
        gate := c.gate.leave (.stream s.id) } := by
  unfold Connector.notice at h
  split at h
  · rename_i hlooks
    rw [Bool.and_eq_true] at hlooks
    cases h
    exact ⟨hlooks.1, hlooks.2, rfl⟩
  · cases h

/-- All that can happen, and what comes of it. -/
inductive Happening (t : Timed Connector) : Event → Timed Connector → Prop where
  | goes {s s' : Stream} {c' : Connector} (hs : t.world.stream? s.id = some s)
      (hg : StreamGoes t.now t.world s s' c') : Happening t (.move (.stream s.id)) ⟨t.now, c'⟩
  | notices {s : Stream} (hs : t.world.stream? s.id = some s) (hclosed : s.queue.closed = true)
      (hlooks : Connector.looksForConsumer s.stage = true) :
      Happening t (.move (.notice s.id))
        ⟨t.now, { t.world.setStream { s with stage := .ended, queue := s.queue.finish } with
          gate := t.world.gate.leave (.stream s.id) }⟩
  | requests {f : Fetch} {gate : Gate Caller}
      (hf : t.world.fetches.find? (·.id = f.id) = some f)
      (hgate : t.world.gate.acquire? t.now (.fetch f.id) = some gate) :
      Happening t (.move (.fetch f.id)) ⟨t.now, { t.world with gate }.request t.now f⟩
  | looks {n : Nat} {gate : Gate Caller}
      (hgate : t.world.gate.count? t.now .observer = some (n, gate)) :
      Happening t (.move .look) ⟨t.now, { t.world with gate, count := some n }⟩
  | fetches (symbol : String) (request : HistoryRequest) :
      Happening t (.fetch symbol request) ⟨t.now, (t.world.fetch symbol request).2⟩
  | forgets (id : Nat) : Happening t (.forget id) ⟨t.now, t.world.forget id⟩
  | begins (symbol : String) :
      Happening t (.openStream symbol) ⟨t.now, (t.world.openStream symbol).2⟩
  | receives {s : Stream} (hs : t.world.stream? s.id = some s) :
      Happening t (.receive s.id) ⟨t.now, t.world.setStream { s with queue := s.queue.receive.2 }⟩
  | drops {s : Stream} (hs : t.world.stream? s.id = some s) :
      Happening t (.drop s.id) ⟨t.now, t.world.setStream { s with queue := s.queue.close }⟩
  /-- There is no such stream. -/
  | misses {id : Nat} {e : Event} (hs : t.world.stream? id = none)
      (he : e = .receive id ∨ e = .drop id) : Happening t e t
  | observes : Happening t .observe ⟨t.now, t.world.observe⟩
  | takes : Happening t .takeCount ⟨t.now, t.world.takeCount.2⟩
  | waits {time : Nat} (hle : t.now ≤ time) : Happening t (.wait time) ⟨time, t.world⟩

section Events

variable {t t' : Timed Connector} {e : Event} {c c' : Connector} {s : Stream}

theorem happening_of_step {m : Connector.Move} (h : Connector.step t.now m t.world = some c') :
    Happening t (.move m) ⟨t.now, c'⟩ := by
  cases m with
  | notice i =>
    obtain ⟨s, hs, hgo⟩ := Option.bind_eq_some_iff.1 h
    obtain ⟨hclosed, hlooks, rfl⟩ := notice_cases hgo
    have hid := id_of_stream? hs
    subst hid
    exact .notices hs hclosed hlooks
  | stream i =>
    obtain ⟨s, hs, hgo⟩ := Option.bind_eq_some_iff.1 h
    obtain ⟨s', hg⟩ := goOn_cases hgo
    have hid := id_of_stream? hs
    subst hid
    exact .goes hs hg
  | fetch i =>
    obtain ⟨f, hf, hgo⟩ := Option.bind_eq_some_iff.1 h
    obtain ⟨gate, hgate, rfl⟩ := Option.map_eq_some_iff.1 hgo
    have hid : f.id = i := by simpa using List.find?_some hf
    subst hid
    exact .requests hf hgate
  | look =>
    obtain ⟨⟨n, gate⟩, hgate, rfl⟩ := Option.map_eq_some_iff.1 h
    exact .looks hgate

theorem happening_of_happens (h : happens e t = some t') : Happening t e t' := by
  cases e with
  | move m =>
    obtain ⟨c, hc, rfl⟩ := Option.map_eq_some_iff.1 h
    exact happening_of_step hc
  | receive i =>
    cases h
    cases hs : t.world.stream? i with
    | none =>
      have hsame : t.update (fun c => (c.receive i).2) = t := by
        simp only [Timed.update, Connector.receive, hs]
      rw [hsame]
      exact .misses hs (.inl rfl)
    | some s =>
      have hid := id_of_stream? hs
      subst hid
      have hset : t.update (fun c => (c.receive s.id).2) =
          ⟨t.now, t.world.setStream { s with queue := s.queue.receive.2 }⟩ := by
        simp only [Timed.update, Connector.receive, hs]
      rw [hset]
      exact .receives hs
  | drop i =>
    cases h
    cases hs : t.world.stream? i with
    | none =>
      have hsame : t.update (fun c => c.dropStream i) = t := by
        simp only [Timed.update, Connector.dropStream, hs]
      rw [hsame]
      exact .misses hs (.inr rfl)
    | some s =>
      have hid := id_of_stream? hs
      subst hid
      have hset : t.update (fun c => c.dropStream s.id) =
          ⟨t.now, t.world.setStream { s with queue := s.queue.close }⟩ := by
        simp only [Timed.update, Connector.dropStream, hs]
      rw [hset]
      exact .drops hs
  | wait time =>
    simp only [happens] at h
    split at h
    · rename_i hle
      cases h
      exact .waits hle
    · cases h
  | fetch symbol request => cases h; exact .fetches symbol request
  | forget i => cases h; exact .forgets i
  | openStream symbol => cases h; exact .begins symbol
  | observe => cases h; exact .observes
  | takeCount => cases h; exact .takes

theorem now_le_of_happens (h : happens e t = some t') : t.now ≤ t'.now := by
  cases happening_of_happens h with
  | waits hle => exact hle
  | _ => exact Nat.le_refl _

/-- Nothing changes what a connector was made with. -/
theorem configured_of_happens (h : happens e t = some t') :
    t'.world.config = t.world.config ∧ t'.world.feed = t.world.feed := by
  cases happening_of_happens h with
  | goes hs hg => exact ⟨hg.frame.2.2.2.2.1, hg.frame.2.2.2.1⟩
  | _ => exact ⟨rfl, rfl⟩

/-! ## What an event does to one stream -/

/-- What an event does to the stream of some number. -/
inductive Fares (id : Nat) (t : Timed Connector) (e : Event) (t' : Timed Connector) : Prop where
  | goes {s s' : Stream} (hs : t.world.stream? id = some s) (he : e = .move (.stream id))
      (hnow : t'.now = t.now) (hg : StreamGoes t.now t.world s s' t'.world)
      (hs' : t'.world.stream? id = some s')
  | notices {s : Stream} (hs : t.world.stream? id = some s) (he : e = .move (.notice id))
      (hclosed : s.queue.closed = true)
      (hs' : t'.world.stream? id = some { s with stage := .ended, queue := s.queue.finish })
  | receives {s : Stream} (hs : t.world.stream? id = some s) (he : e = .receive id)
      (hs' : t'.world.stream? id = some { s with queue := s.queue.receive.2 })
  | drops {s : Stream} (hs : t.world.stream? id = some s) (he : e = .drop id)
      (hs' : t'.world.stream? id = some { s with queue := s.queue.close })
  | begins {symbol : String} (hs : t.world.stream? id = none) (he : e = .openStream symbol)
      (hid : t.world.nextId = id)
      (hs' : t'.world.stream? id =
        some ⟨id, Text.upperText symbol, .new t.world.queueCapacity, .pacing⟩)
  | stays (hs : t'.world.stream? id = t.world.stream? id) (he : e ≠ .move (.stream id))
      (hr : e = .receive id → t.world.stream? id = none)

theorem stream?_openStream (c : Connector) (symbol : String) (id : Nat) :
    (c.openStream symbol).2.stream? id = (c.stream? id).or
      (if c.nextId = id then
        some ⟨c.nextId, Text.upperText symbol, .new c.queueCapacity, .pacing⟩ else none) := by
  simp only [Connector.openStream, Connector.stream?, List.find?_append, List.find?_singleton,
    decide_eq_true_eq]

theorem fares_of_happens (h : happens e t = some t') (id : Nat) : Fares id t e t' := by
  cases happening_of_happens h with
  | @goes s s' c' hs hg =>
    by_cases hid : s.id = id
    · subst hid
      exact .goes hs rfl rfl hg (hg.stream? hs)
    · exact .stays (hg.stream?_of_ne hid) (by simpa using hid) (by simp)
  | @notices s hs hclosed _ =>
    by_cases hid : s.id = id
    · subst hid
      exact .notices hs rfl hclosed
        (stream?_setStream_self (s := { s with stage := .ended, queue := s.queue.finish }) hs)
    · refine .stays ?_ (by simp) (by simp)
      exact stream?_setStream_of_ne (s := { s with stage := .ended, queue := _ }) hid
  | begins symbol =>
    have hs := stream?_openStream t.world symbol id
    cases hold : t.world.stream? id with
    | some s =>
      rw [hold, Option.some_or] at hs
      exact .stays (hs.trans hold.symm) (by simp) (by simp)
    | none =>
      rw [hold, Option.none_or] at hs
      split at hs
      · rename_i hid
        subst hid
        exact .begins hold rfl rfl hs
      · exact .stays (hs.trans hold.symm) (by simp) (by simp)
  | @receives s hs =>
    by_cases hid : s.id = id
    · subst hid
      exact .receives hs rfl
        (stream?_setStream_self (s := { s with queue := s.queue.receive.2 }) hs)
    · refine .stays ?_ (by simp) (by simp [hid])
      exact stream?_setStream_of_ne (s := { s with queue := _ }) hid
  | @drops s hs =>
    by_cases hid : s.id = id
    · subst hid
      exact .drops hs rfl (stream?_setStream_self (s := { s with queue := s.queue.close }) hs)
    · refine .stays ?_ (by simp) (by simp)
      exact stream?_setStream_of_ne (s := { s with queue := _ }) hid
  | @misses i e hs he =>
    rcases he with rfl | rfl
    · refine .stays rfl (by simp) ?_
      intro hi
      cases hi
      exact hs
    · exact .stays rfl (by simp) (by simp)
  | requests hf hgate => exact .stays rfl (by simp) (by simp)
  | _ => exact .stays rfl (by simp) (by simp)

/-! ## What an event does to the gate and the calls -/

/-- What becomes of the gate and of the calls of the venue: every call takes a grant at its time,
and there are no other grants. -/
def Paces (now : Nat) (c c' : Connector) : Prop :=
  ∃ new, (c.gate.Goes now new c'.gate ∨ new = [] ∧ c'.gate = c.gate) ∧
    c'.calls.map Prod.fst = c.calls.map Prod.fst ++ new

theorem Paces.of_eq {now : Nat} (hgate : c'.gate = c.gate) (hcalls : c'.calls = c.calls) :
    Paces now c c' := ⟨[], .inr ⟨rfl, hgate⟩, by rw [hcalls, List.append_nil]⟩

theorem Paces.of_goes {now : Nat} (hgate : c.gate.Goes now [] c'.gate)
    (hcalls : c'.calls = c.calls) : Paces now c c' :=
  ⟨[], .inl hgate, by rw [hcalls, List.append_nil]⟩

theorem StreamGoes.paces {now : Nat} {s' : Stream} (h : StreamGoes now c s s' c') :
    Paces now c c' := by
  cases h with
  | opens hst hgate hs' =>
    exact ⟨[now], .inl (.passes _ hgate), by simp [Connector.openFeed, Connector.setStream,
      Connector.log]⟩
  | resumes hst hdue hs' => exact .of_goes (.joins _) rfl
  | _ => exact .of_eq rfl rfl

theorem paces_of_happens (h : happens e t = some t') : Paces t.now t.world t'.world := by
  cases happening_of_happens h with
  | goes hs hg => exact hg.paces
  | notices hs hclosed hlooks => exact .of_goes (.leaves _) rfl
  | requests hf hgate =>
    exact ⟨[t.now], .inl (.passes _ hgate), by simp [Connector.request, Connector.log]⟩
  | looks hgate => exact .of_goes (.counts _ hgate) rfl
  | fetches symbol request => exact .of_goes (.joins _) rfl
  | forgets i => exact .of_goes (.leaves _) rfl
  | begins symbol => exact .of_goes (.joins _) rfl
  | observes => exact .of_goes (.joins _) rfl
  | receives hs => exact .of_eq rfl rfl
  | drops hs => exact .of_eq rfl rfl
  | misses hs he => exact .of_eq rfl rfl
  | takes => exact .of_eq rfl rfl
  | waits hle => exact .of_eq rfl rfl

end Events

end Binance
end MarketFeed
