import MarketFeed.Proofs.Binance.Steps
import MarketFeed.Proofs.Pacing.Front

/-!
# MarketFeed.Proofs.Binance.Waiting

Who waits at the gate of a connector.

* `Gated`, `gated_of_history` — each stream that waits for a grant is in the queue once, and no
  other stream is; a fetch in the queue is one that was not forgotten.
* `Caller.move` — what the first of the queue does to leave it. `Gated.ready` — it can, once all
  grants have left the window.
-/

namespace MarketFeed
namespace Binance

def Stage.isPacing : Stage → Bool
  | .pacing => true
  | _ => false

/-- A stream waits for a grant. -/
def Connector.isPacing (c : Connector) (id : Nat) : Bool :=
  (c.stream? id).any fun s => s.stage.isPacing

/-- The queue holds who waits. -/
structure Gated (c : Connector) : Prop where
  streams : ∀ id, c.gate.queue.count (.stream id) = (c.isPacing id).toNat
  fetches : ∀ id, Caller.fetch id ∈ c.gate.queue → (c.fetches.find? (·.id = id)).isSome
  numbered : ∀ id, c.nextId ≤ id → c.stream? id = none

section Pacing

variable {c c' : Connector} {s s' : Stream} {id now : Nat}

theorem isPacing_of_some (h : c.stream? id = some s) : c.isPacing id = s.stage.isPacing := by
  rw [Connector.isPacing, h]
  rfl

theorem isPacing_congr (h : c'.stream? id = c.stream? id) : c'.isPacing id = c.isPacing id := by
  rw [Connector.isPacing, h]
  rfl

theorem isPacing_setStream (gate : Gate Caller) (hs : c.stream? s.id = some s') :
    ({ c.setStream s with gate } : Connector).isPacing id =
      if s.id = id then s.stage.isPacing else c.isPacing id := by
  split
  · rename_i hid
    subst hid
    exact isPacing_of_some (stream?_setStream_self hs)
  · rename_i hid
    exact isPacing_congr (stream?_setStream_of_ne hid)

/-- A stream that is not there does not come from another one. -/
theorem stream?_setStream_none (hs : c.stream? s.id = some s') (h : c.stream? id = none) :
    (c.setStream s).stream? id = none := by
  rw [stream?_setStream_of_ne, h]
  intro hid
  rw [hid, h] at hs
  cases hs

theorem StreamGoes.isPacing (h : StreamGoes now c s s' c') (hs : c.stream? s.id = some s) :
    c'.isPacing id = if s.id = id then s'.stage.isPacing else c.isPacing id := by
  split
  · rename_i hid
    subst hid
    exact isPacing_of_some (h.stream? hs)
  · rename_i hid
    exact isPacing_congr (h.stream?_of_ne hid)

/-- A stream joins the queue when it begins to wait, and leaves it from the front with its grant. -/
theorem StreamGoes.gate (h : StreamGoes now c s s' c') :
    (s.stage.isPacing = true ∧ s'.stage.isPacing = false ∧
        c.gate.queue.head? = some (.stream s.id) ∧ c'.gate.queue = c.gate.queue.tail) ∨
      (s.stage.isPacing = false ∧ s'.stage.isPacing = true ∧
        c'.gate = c.gate.join (.stream s.id)) ∨
      (s.stage.isPacing = false ∧ s'.stage.isPacing = false ∧ c'.gate = c.gate) := by
  cases h with
  | opens hst hgate hs' =>
    obtain ⟨l, -, hfront, rfl⟩ := Gate.acquire?_eq_some hgate
    subst hs'
    rw [hst]
    exact .inl ⟨rfl, rfl, hfront, rfl⟩
  | resumes hst hdue hs' =>
    subst hs'
    rw [hst]
    exact .inr (.inl ⟨rfl, rfl, rfl⟩)
  | connects hst | fails hst | ends hst | skips hst | reads hst | sends hst =>
    subst_vars
    rw [hst]
    exact .inr (.inr ⟨rfl, rfl, rfl⟩)

end Pacing

namespace Gated

variable {t t' : Timed Connector} {e : Event} {s s' : Stream} {c c' : Connector} {now : Nat}

theorem count_goes (h : Gated c) (hs : c.stream? s.id = some s) (hg : StreamGoes now c s s' c')
    (id : Nat) : c'.gate.queue.count (.stream id) = (c'.isPacing id).toNat := by
  have hold := h.streams id
  have hpacing := isPacing_of_some hs
  rw [hg.isPacing hs]
  rcases hg.gate with ⟨hst, hst', hfront, hqueue⟩ | ⟨hst, hst', hgate⟩ | ⟨hst, hst', hgate⟩
  · rw [Gate.count_tail hfront] at hold
    rw [hqueue, hst']
    by_cases hid : s.id = id
    · subst hid
      rw [hpacing, hst] at hold
      simpa using hold
    · simpa [hid] using hold
  · rw [hgate, Gate.count_join, hold, hst']
    by_cases hid : s.id = id
    · subst hid
      rw [hpacing, hst]
      simp
    · simp [hid]
  · rw [hgate, hold, hst']
    split
    · rename_i hid
      subst hid
      rw [hpacing, hst]
    · rfl

/-- What happens to the other callers. -/
theorem of_others (h : Gated c) (hstreams : c'.streams = c.streams) (hnext : c.nextId ≤ c'.nextId)
    (hcount : ∀ id, c'.gate.queue.count (.stream id) = c.gate.queue.count (.stream id))
    (hfetches : ∀ id, Caller.fetch id ∈ c'.gate.queue →
      (c'.fetches.find? (·.id = id)).isSome) : Gated c' := by
  have hsame : ∀ id, c'.stream? id = c.stream? id := by
    intro id
    rw [Connector.stream?, hstreams]
    rfl
  refine ⟨?_, hfetches, ?_⟩
  · intro id
    rw [hcount, h.streams, isPacing_congr (hsame id)]
  · intro id hid
    rw [hsame]
    exact h.numbered id (Nat.le_trans hnext hid)

theorem goes (h : Gated c) (hs : c.stream? s.id = some s) (hg : StreamGoes now c s s' c') :
    Gated c' := by
  obtain ⟨-, -, -, -, -, hnext, hfetches⟩ := hg.frame
  refine ⟨h.count_goes hs hg, ?_, ?_⟩
  · intro id hmem
    rw [hfetches]
    refine h.fetches id ?_
    rcases hg.gate with ⟨-, -, -, hqueue⟩ | ⟨-, -, hgate⟩ | ⟨-, -, hgate⟩
    · rw [hqueue] at hmem
      exact List.mem_of_mem_tail hmem
    · rw [hgate] at hmem
      simpa [Gate.join] using hmem
    · rwa [hgate] at hmem
  · intro id hid
    rw [hnext] at hid
    have hnone := h.numbered id hid
    rwa [hg.stream?_of_ne]
    intro hsame
    rw [← hsame, hs] at hnone
    cases hnone

/-- The consumer of a stream changes nothing of where it waits. -/
theorem setStream (h : Gated c) (hs : c.stream? s.id = some s') (hst : s.stage = s'.stage) :
    Gated (c.setStream s) := by
  refine ⟨?_, h.fetches, fun id hid => stream?_setStream_none hs (h.numbered id hid)⟩
  intro id
  rw [show (c.setStream s).isPacing id = _ from isPacing_setStream c.gate hs]
  split
  · rename_i hid
    subst hid
    rw [hst, ← isPacing_of_some hs]
    exact h.streams s.id
  · exact h.streams id

theorem leaves_stream (h : Gated c) (hs : c.stream? s.id = some s') (hst : s.stage = .ended) :
    Gated { c.setStream s with gate := c.gate.leave (.stream s.id) } where
  streams id := by
    rw [Gate.count_leave, isPacing_setStream _ hs, h.streams id, hst]
    by_cases hid : s.id = id <;> simp [hid, Stage.isPacing]
  fetches id hmem := h.fetches id (List.mem_of_mem_filter hmem)
  numbered id hid := stream?_setStream_none hs (h.numbered id hid)

theorem begins (h : Gated c) (symbol : String) : Gated (c.openStream symbol).2 where
  streams id := by
    have hnew := stream?_openStream c symbol id
    rw [show (c.openStream symbol).2.gate = c.gate.join (.stream c.nextId) from rfl,
      Gate.count_join, h.streams id]
    by_cases hid : c.nextId = id
    · rw [h.numbered id (Nat.le_of_eq hid), Option.none_or, if_pos hid] at hnew
      rw [isPacing_of_some hnew, Connector.isPacing, h.numbered id (Nat.le_of_eq hid)]
      simp [hid, Stage.isPacing]
    · rw [if_neg hid, Option.or_none] at hnew
      rw [isPacing_congr hnew]
      simp [hid]
  fetches id hmem := by
    refine h.fetches id ?_
    simpa [Connector.openStream, Gate.join] using hmem
  numbered id hid := by
    have hid : c.nextId + 1 ≤ id := hid
    rw [stream?_openStream, h.numbered id (by omega), Option.none_or, if_neg (by omega)]

theorem requests (h : Gated c) {f : Fetch} {gate : Gate Caller}
    (hgate : c.gate.acquire? now (.fetch f.id) = some gate) :
    Gated (({ c with gate } : Connector).request now f) := by
  obtain ⟨l, -, hfront, rfl⟩ := Gate.acquire?_eq_some hgate
  refine h.of_others rfl (Nat.le_refl _) ?_ ?_
  · intro id
    rw [Gate.count_tail hfront]
    rfl
  · intro id hmem
    have hfound := h.fetches id (List.mem_of_mem_tail hmem)
    rw [List.find?_isSome] at hfound ⊢
    obtain ⟨g, hg, hid⟩ := hfound
    refine ⟨_, List.mem_map_of_mem hg, ?_⟩
    split
    · rename_i hsame
      simpa [hsame] using hid
    · exact hid

theorem next (h : Gated t.world) (he : happens e t = some t') : Gated t'.world := by
  cases happening_of_happens he with
  | goes hs hg => exact h.goes hs hg
  | @notices s hs hclosed hlooks =>
    exact h.leaves_stream (s := { s with stage := .ended, queue := s.queue.finish }) hs rfl
  | requests hf hgate => exact h.requests hgate
  | looks hgate =>
    obtain ⟨hfront, -, rfl⟩ := Gate.count?_eq_some hgate
    refine h.of_others rfl (Nat.le_refl _) ?_ fun id hmem =>
      h.fetches id (List.mem_of_mem_tail hmem)
    intro id
    rw [Gate.count_tail hfront]
    rfl
  | fetches symbol request =>
    refine h.of_others rfl (Nat.le_succ _) (fun _ => Gate.count_join _) ?_
    intro id hmem
    simp only [Connector.fetch, Gate.join, List.mem_append, List.mem_singleton,
      Caller.fetch.injEq] at hmem ⊢
    rw [List.find?_append, Option.isSome_or]
    rcases hmem with hmem | rfl
    · rw [h.fetches id hmem]
      rfl
    · simp
  | forgets i =>
    refine h.of_others rfl (Nat.le_refl _) (fun _ => Gate.count_leave _) ?_
    intro id hmem
    simp only [Connector.forget, Connector.forgetFetch, Gate.leave, List.mem_filter] at hmem ⊢
    have hne : id ≠ i := by simpa using hmem.2
    have hfound := h.fetches id hmem.1
    rw [List.find?_isSome] at hfound ⊢
    obtain ⟨f, hf, hid⟩ := hfound
    have hid' : f.id = id := by simpa using hid
    exact ⟨f, List.mem_filter.2 ⟨hf, by simpa [hid'] using hne⟩, hid⟩
  | begins symbol => exact h.begins symbol
  | @receives s hs => exact h.setStream (s := { s with queue := s.queue.receive.2 }) hs rfl
  | @drops s hs => exact h.setStream (s := { s with queue := s.queue.close }) hs rfl
  | misses hs _ => exact h
  | observes =>
    refine h.of_others rfl (Nat.le_refl _) (fun _ => Gate.count_join _) ?_
    intro id hmem
    refine h.fetches id ?_
    simpa [Connector.observe, Gate.join] using hmem
  | takes => exact ⟨h.streams, h.fetches, h.numbered⟩
  | waits hle => exact h

end Gated

theorem gated_of_new {config : Config} {server : Http.Server} {feed : Feed} {c : Connector}
    (hc : Connector.new config server feed = .ok c) : Gated c := by
  obtain ⟨l, -, rfl⟩ := new_eq hc
  exact ⟨fun _ => rfl, fun _ hmem => absurd hmem (List.not_mem_nil), fun _ _ => rfl⟩

theorem gated_of_history {h : List (Incident (Timed Connector) Event)} {t t' : Timed Connector}
    (hist : History happens t h t') (ht : Gated t.world) : Gated t'.world := by
  induction hist with
  | nil => exact ht
  | snoc _ he ih => exact ih.next he

/-! ## At the front -/

/-- What a caller at the front does to leave the queue. -/
def Caller.move : Caller → Connector.Move
  | .fetch id => .fetch id
  | .stream id => .stream id
  | .observer => .look

section Front

variable {t t' : Timed Connector} {who : Caller}

theorem Gated.pacing_of_mem (h : Gated t.world) {id : Nat}
    (hmem : Caller.stream id ∈ t.world.gate.queue) :
    ∃ s, t.world.stream? id = some s ∧ s.stage = .pacing := by
  have hcount := h.streams id
  have hpos := List.count_pos_iff.2 hmem
  cases hp : t.world.isPacing id with
  | false =>
    rw [hp] at hcount
    rw [hcount] at hpos
    cases hpos
  | true =>
    obtain ⟨s, hs, hst⟩ := (Option.any_eq_true _ _).1 hp
    refine ⟨s, hs, ?_⟩
    cases hstage : s.stage with
    | pacing => rfl
    | _ => rw [hstage] at hst; cases hst

theorem Gated.mem_of_pacing (h : Gated t.world) {id : Nat} {s : Stream}
    (hs : t.world.stream? id = some s) (hst : s.stage = .pacing) :
    t.world.gate.queue.count (.stream id) = 1 := by
  rw [h.streams, isPacing_of_some hs, hst]
  rfl

/-- The caller at the front can go on once all grants have left the window. -/
theorem Gated.ready (h : Gated t.world) (hfront : t.world.gate.queue.head? = some who)
    (hpast : ∀ a ∈ t.world.gate.limiter.recent, a + t.world.gate.limiter.per ≤ t.now) :
    happens (.move who.move) t ≠ none := by
  obtain ⟨gate, hgate⟩ := Gate.acquire?_of_past hfront hpast
  have hmem : who ∈ t.world.gate.queue := List.mem_of_mem_head? hfront
  cases who with
  | fetch id =>
    obtain ⟨f, hf⟩ := Option.isSome_iff_exists.1 (h.fetches id hmem)
    have hid : f.id = id := by simpa using List.find?_some hf
    subst hid
    simp [happens, Caller.move, Connector.step, hf, Connector.goFetch, hgate]
  | stream id =>
    obtain ⟨s, hs, hst⟩ := h.pacing_of_mem hmem
    have hid := id_of_stream? hs
    subst hid
    simp [happens, Caller.move, Connector.step, hs, Connector.goOn, hst, hgate]
  | observer =>
    simp [happens, Caller.move, Connector.step, Connector.look, Gate.count?_of_front hfront]

/-- When the caller at the front goes on, it leaves the queue. -/
theorem Gated.leaves (h : Gated t.world) (hfront : t.world.gate.queue.head? = some who)
    (he : happens (.move who.move) t = some t') :
    t'.world.gate.queue = t.world.gate.queue.tail := by
  have hmem : who ∈ t.world.gate.queue := List.mem_of_mem_head? hfront
  cases who with
  | fetch id =>
    cases happening_of_happens he with
    | requests hf hgate =>
      obtain ⟨l, -, -, rfl⟩ := Gate.acquire?_eq_some hgate
      rfl
    | misses _ hno => simp at hno
  | stream id =>
    obtain ⟨s, hs, hst⟩ := h.pacing_of_mem hmem
    cases happening_of_happens he with
    | goes hs₀ hg =>
      rw [hs] at hs₀
      cases hs₀
      rcases hg.gate with ⟨-, -, -, hqueue⟩ | ⟨hnot, -⟩ | ⟨hnot, -⟩
      · exact hqueue
      · rw [hst] at hnot
        cases hnot
      · rw [hst] at hnot
        cases hnot
    | misses _ hno => simp at hno
  | observer =>
    cases happening_of_happens he with
    | looks hgate =>
      obtain ⟨-, -, rfl⟩ := Gate.count?_eq_some hgate
      rfl
    | misses _ hno => simp at hno

end Front
end Binance
end MarketFeed
