import MarketFeed.Proofs.Binance.Trail
import MarketFeed.Proofs.Binance.Waiting

/-!
# MarketFeed.Proofs.Binance.Liveness

What must happen to a stream whose consumer stays and goes on to take its trades.

* `Fair` — a history without an end in which every task is treated justly and time passes.
* `Live` — such a history of a new connector, with what is found at each of its moments.
* `At` — where the stream stands at a moment. `Live.goes_on` — a stream that does not wait for a
  silent connection goes on.
* `exists_fair` — a schedule after which nothing is left to do begins a fair history.
-/

namespace MarketFeed
namespace Binance

/-- A history without an end: every task that may go on does so at some time, time passes beyond
every bound, and the consumer of the stream stays and takes trades while there are any. -/
structure Fair (id : Nat) (t : Nat → Timed Connector) (e : Nat → Event) : Prop where
  endless : Endless happens t e
  just : ∀ m, Just happens t e (.move m)
  passes : ∀ time, ∃ i, time ≤ (t i).now
  reads : ∀ i, ∃ j, i ≤ j ∧
    (e j = .receive id ∨ ∀ s, (t j).world.stream? id = some s → s.queue.items = [])
  stays : ∀ i, e i ≠ .drop id

/-- A fair history of a connector that was new at its start. -/
structure Live (config : Config) (feed : Feed) (id : Nat) (t : Nat → Timed Connector)
    (e : Nat → Event) : Prop extends Fair id t e where
  found : ∀ i, Found config feed (incidents t e i) (t i)
  gated : ∀ i, Gated (t i).world
  opened : ∀ i s, (t i).world.stream? id = some s →
    s.queue.closed = false ∧ s.stage ≠ .ended

/-- Where the stream stands at a moment, with its turns and the trades accepted so far. -/
def At (id : Nat) (t : Nat → Timed Connector) (e : Nat → Event) (symbol : String) (stage : Stage)
    (ts : List (Nat × Turn)) (all : List Trade) (i : Nat) : Prop :=
  turns id (incidents t e i) = ts ∧ accepted id (incidents t e i) = all ∧
    ∃ s, (t i).world.stream? id = some s ∧ s.symbol = symbol ∧ s.stage = stage

section

variable {config : Config} {server : Http.Server} {feed : Feed} {c : Connector} {start id : Nat}
  {t : Nat → Timed Connector} {e : Nat → Event} {stage : Stage} {ts : List (Nat × Turn)}
  {all : List Trade} {s s' : Stream} {symbol : String} {i j : Nat}

theorem StreamGoes.stage_ne_ended {now : Nat} {c c' : Connector} (h : StreamGoes now c s s' c') :
    s'.stage ≠ .ended := by
  cases h <;> subst_vars <;> exact Stage.noConfusion

theorem Fair.live (hf : Fair id t e) (hc : Connector.new config server feed = .ok c)
    (hstart : t 0 = ⟨start, c⟩) : Live config feed id t e where
  toFair := hf
  found i := found_of_history hc (hstart ▸ hf.endless.history i)
  gated i := by
    have hist := hf.endless.history i
    rw [hstart] at hist
    exact gated_of_history hist (gated_of_new hc)
  opened i := by
    induction i with
    | zero =>
      intro s hs
      obtain ⟨l, -, rfl⟩ := new_eq hc
      rw [hstart] at hs
      cases hs
    | succ i ih =>
      intro s' hs'
      cases fares_of_happens (hf.endless.goes i) id with
      | goes hs _ _ hg hs₁ =>
        rw [hs'] at hs₁
        cases hs₁
        refine ⟨?_, hg.stage_ne_ended⟩
        have hopen := (ih _ hs).1
        rcases hg.queue with hsame | ⟨-, -, trade, hsent⟩
        · rw [hsame, hopen]
        · rw [hsent]
          exact hopen
      | notices hs _ hclosed _ =>
        rw [(ih _ hs).1] at hclosed
        cases hclosed
      | receives hs _ hs₁ =>
        rw [hs'] at hs₁
        cases hs₁
        rw [receive_queue]
        have hopen := ih _ hs
        exact hopen
      | drops _ he _ => exact absurd he (hf.stays i)
      | begins _ _ _ hs₁ =>
        rw [hs'] at hs₁
        cases hs₁
        exact ⟨rfl, Stage.noConfusion⟩
      | stays hsame _ _ => exact ih _ (hsame ▸ hs')

theorem ready_of_goOn {t : Timed Connector} (hs : t.world.stream? id = some s)
    (hgo : t.world.goOn t.now s ≠ none) : happens (.move (.stream id)) t ≠ none := by
  simpa [happens, Connector.step, hs] using hgo

theorem readItem_ne_none {c : Connector} {now : Nat} {f : Frames} {next : Nat}
    (h : f.item next ≠ none ∨ f.closes = true) : c.readItem now s f next ≠ none := by
  unfold Connector.readItem
  split
  · rename_i hnone
    rw [if_pos (h.resolve_left fun hsome => hsome hnone)]
    exact Option.some_ne_none _
  · exact Option.some_ne_none _
  · exact Option.some_ne_none _
  · split <;> exact Option.some_ne_none _

/-- Where a stream can go on once the time has come, if its consumer takes trades: not where a
connection is silent. -/
def Stage.Busy : Stage → Prop
  | .reading f next _ => f.item next ≠ none ∨ f.closes = true
  | .ended => False
  | _ => True

namespace Live

variable (hl : Live config feed id t e)
include hl

theorem passes_for_good (time : Nat) : ∃ k, ∀ j, k ≤ j → time ≤ (t j).now :=
  eventually_ge (fun j => now_le_of_happens (hl.endless.goes j)) hl.passes time

/-- What becomes of the stream in one incident: it goes on, or its consumer takes a trade, or
nothing. -/
theorem next (hs : (t i).world.stream? id = some s) :
    (∃ s', e i = .move (.stream id) ∧ (t (i + 1)).world.stream? id = some s' ∧
        StreamGoes (t i).now (t i).world s s' (t (i + 1)).world) ∨
      ∃ s', e i ≠ .move (.stream id) ∧ (t (i + 1)).world.stream? id = some s' ∧
        s'.symbol = s.symbol ∧ s'.stage = s.stage ∧
        acceptedAt id ⟨t i, e i, t (i + 1)⟩ = [] ∧
        (e i = .receive id ∧ s'.queue = { s.queue with items := s.queue.items.tail } ∨
          e i ≠ .receive id ∧ s'.queue = s.queue) := by
  cases fares_of_happens (hl.endless.goes i) id with
  | goes hs₀ he _ hg hs' =>
    rw [hs] at hs₀
    cases hs₀
    exact .inl ⟨_, he, hs', hg⟩
  | notices hs₀ _ hclosed _ =>
    rw [(hl.opened i _ hs₀).1] at hclosed
    cases hclosed
  | receives hs₀ he hs' =>
    rw [hs] at hs₀
    cases hs₀
    rw [receive_queue] at hs'
    refine .inr ⟨_, by simp [he], hs', rfl, rfl, ?_, .inl ⟨he, rfl⟩⟩
    rw [acceptedAt_of_some hs hs', List.drop_eq_nil_iff, List.length_tail]
    exact Nat.sub_le _ _
  | drops _ he _ => exact absurd he (hl.stays i)
  | begins hs₀ _ _ _ => rw [hs] at hs₀; cases hs₀
  | stays hsame he hr =>
    refine .inr ⟨s, he, hsame.trans hs, rfl, rfl, ?_, .inr ⟨?_, rfl⟩⟩
    · rw [acceptedAt_of_some hs (hsame.trans hs), List.drop_length]
    · intro hreceive
      rw [hr hreceive] at hs
      cases hs

/-- The stream goes on to be there, for the same symbol. -/
theorem stream?_of_le (hij : i ≤ j) (hs : (t i).world.stream? id = some s) :
    ∃ s', (t j).world.stream? id = some s' ∧ s'.symbol = s.symbol := by
  induction j, hij using Nat.le_induction with
  | base => exact ⟨s, hs, rfl⟩
  | succ j _ ih =>
    obtain ⟨s₁, hs₁, hsymbol⟩ := ih
    rcases hl.next hs₁ with ⟨s', -, hs', hg⟩ | ⟨s', -, hs', hsymbol', -⟩
    · exact ⟨s', hs', hg.frame.2.1.trans hsymbol⟩
    · exact ⟨s', hs', hsymbol'.trans hsymbol⟩

/-- The stream stands where it is until it goes on. -/
theorem at_succ (h : At id t e symbol stage ts all i) (he : e i ≠ .move (.stream id)) :
    At id t e symbol stage ts all (i + 1) := by
  obtain ⟨hts, hall, s, hs, hsymbol, hst⟩ := h
  rcases hl.next hs with ⟨s', hevent, -⟩ | ⟨s', -, hs', hsymbol', hst', haccepted, -⟩
  · exact absurd hevent he
  · rw [At, incidents_succ, turns_concat, accepted_concat, turnAt?_of_ne he, haccepted]
    simp only [Option.toList_none, List.append_nil]
    exact ⟨hts, hall, s', hs', hsymbol'.trans hsymbol, hst'.trans hst⟩

/-- Where the stream stands when it has gone on. -/
theorem at_goes (h : At id t e symbol stage ts all i) (he : e i = .move (.stream id)) :
    ∃ s s', (t i).world.stream? id = some s ∧ s.stage = stage ∧
      StreamGoes (t i).now (t i).world s s' (t (i + 1)).world ∧
      At id t e symbol s'.stage (ts ++ (turnOf (t i).now (t i).world s').toList)
        (all ++ s'.queue.items.drop s.queue.items.length) (i + 1) := by
  obtain ⟨hts, hall, s, hs, hsymbol, hst⟩ := h
  rcases hl.next hs with ⟨s', -, hs', hg⟩ | ⟨s', hevent, -⟩
  · refine ⟨s, s', hs, hst, hg, ?_⟩
    rw [At, incidents_succ, turns_concat, accepted_concat, acceptedAt_of_some hs hs', he,
      turnAt?_stream hs', hts, hall]
    exact ⟨rfl, rfl, s', hs', hg.frame.2.1.trans hsymbol, rfl⟩
  · exact absurd he hevent

/-! ## What a stream waits for -/

/-- The gate between two moments at which the stream waits there. -/
theorem gate_succ {all' : List Trade} {ts' : List (Nat × Turn)}
    (h : At id t e symbol .pacing ts all i)
    (h' : At id t e symbol .pacing ts' all' (i + 1)) :
    Gate.Nears (.stream id) (t i).world.gate (t (i + 1)).world.gate := by
  obtain ⟨-, -, s, hs, -, hst⟩ := h
  obtain ⟨-, -, s', hs', -, hst'⟩ := h'
  have hone := (hl.gated i).mem_of_pacing hs hst
  have hone' := (hl.gated (i + 1)).mem_of_pacing hs' hst'
  obtain ⟨new, hgoes | ⟨-, hsame⟩, -⟩ := paces_of_happens (hl.endless.goes i)
  · exact hgoes.nears (Nat.le_of_eq hone) (List.count_pos_iff.1 (by omega))
      (List.count_pos_iff.1 (by omega))
  · rw [hsame]
    exact .refl _ _

/-- No stream waits for a grant for ever. -/
theorem not_pacing_for_good : ¬ ∀ j, i ≤ j → At id t e symbol .pacing ts all j := by
  intro hlast
  have hone : ∀ j, i ≤ j → (t j).world.gate.queue.count (.stream id) = 1 := by
    intro j hj
    obtain ⟨-, -, s, hs, -, hst⟩ := hlast j hj
    exact (hl.gated j).mem_of_pacing hs hst
  have hmem (j : Nat) (hj : i ≤ j) : Caller.stream id ∈ (t j).world.gate.queue :=
    List.count_pos_iff.1 (by rw [hone j hj]; exact Nat.zero_lt_one)
  refine Gate.not_queued_for_good hmem
    (fun j hj => hl.gate_succ (hlast j hj) (hlast (j + 1) (by omega))) hl.passes_for_good ?_
  intro first k hk hfront
  -- the caller at the front can go on, so it does, and leaves the queue
  obtain ⟨j, hj, he | hnone⟩ := hl.just first.move k
  · have hgo := hl.endless.goes j
    rw [he] at hgo
    have htail := (hl.gated j).leaves (hfront j hj).1 hgo
    have hlt := Gate.idxOf_tail_lt (Nat.le_of_eq (hone j (by omega)))
      (htail ▸ hmem (j + 1) (by omega))
    exact ⟨j, hj, htail ▸ hlt⟩
  · exact absurd hnone ((hl.gated j).ready (hfront j hj).1 (hfront j hj).2)

/-- The queue of the stream where no trade enters it. -/
theorem queue_succ (hs : (t i).world.stream? id = some s)
    (hnone : acceptedAt id ⟨t i, e i, t (i + 1)⟩ = []) :
    ∃ s', (t (i + 1)).world.stream? id = some s' ∧
      (e i = .receive id ∧ s'.queue.items = s.queue.items.tail ∨
        e i ≠ .receive id ∧ s'.queue.items = s.queue.items) := by
  rcases hl.next hs with ⟨s', he, hs', hg⟩ | ⟨s', -, hs', -, -, -, ⟨he, hqueue⟩ | ⟨he, hqueue⟩⟩
  · refine ⟨s', hs', .inr ⟨by simp [he], ?_⟩⟩
    rcases hg.queue with hsame | ⟨-, -, trade, hsent⟩
    · rw [hsame]
    · rw [acceptedAt_of_some hs hs', hsent, List.drop_left] at hnone
      cases hnone
  · exact ⟨s', hs', .inl ⟨he, by rw [hqueue]⟩⟩
  · exact ⟨s', hs', .inr ⟨he, by rw [hqueue]⟩⟩

/-- When no trade enters the queue any more, it becomes empty. -/
theorem queue_empties (hs : (t i).world.stream? id = some s)
    (hall : ∀ j, i ≤ j → accepted id (incidents t e j) = all) :
    ∃ k, ∀ j, k ≤ j → ∀ s, (t j).world.stream? id = some s → s.queue.items = [] := by
  have hnone : ∀ j, i ≤ j → acceptedAt id ⟨t j, e j, t (j + 1)⟩ = [] := by
    intro j hj
    have hnext := hall (j + 1) (by omega)
    rw [incidents_succ, accepted_concat, hall j hj] at hnext
    simpa using hnext
  have hpresent : ∀ j, i ≤ j → ∃ s, (t j).world.stream? id = some s := by
    intro j hj
    obtain ⟨s', hs', -⟩ := hl.stream?_of_le hj hs
    exact ⟨s', hs'⟩
  obtain ⟨k, hk, hrest⟩ := eventually_constant
    (f := fun j => ((t j).world.stream? id).elim 0 fun s => s.queue.items.length) (i := i) (by
      intro j hj
      obtain ⟨s, hs⟩ := hpresent j hj
      obtain ⟨s', hs', ⟨-, hitems⟩ | ⟨-, hitems⟩⟩ := hl.queue_succ hs (hnone j hj)
      · rw [hs, hs', Option.elim_some, Option.elim_some, hitems, List.length_tail]
        exact Nat.sub_le _ _
      · rw [hs, hs', Option.elim_some, Option.elim_some, hitems])
  refine ⟨k, fun j hj s hs => ?_⟩
  have hlength : ∀ m, k ≤ m → ∀ s', (t m).world.stream? id = some s' →
      s'.queue.items.length = s.queue.items.length := by
    intro m hm s' hs'
    have heq := (hrest m hm).trans (hrest j hj).symm
    rwa [hs, hs', Option.elim_some, Option.elim_some] at heq
  rw [← List.length_eq_zero_iff]
  obtain ⟨m, hm, hevent⟩ := hl.reads j
  obtain ⟨s₀, hs₀⟩ := hpresent m (by omega)
  rw [← hlength m (by omega) s₀ hs₀]
  rcases hevent with hreceive | hempty
  · obtain ⟨s', hs', ⟨-, hitems⟩ | ⟨hno, -⟩⟩ := hl.queue_succ hs₀ (hnone m (by omega))
    · have hshort := congrArg List.length hitems
      rw [List.length_tail, hlength (m + 1) (by omega) s' hs', ← hlength m (by omega) s₀ hs₀]
        at hshort
      omega
    · exact absurd hreceive hno
  · rw [hempty s₀ hs₀]
    rfl

/-- A stream that does not wait for a silent connection goes on at some time. -/
theorem goes_on (h : At id t e symbol stage ts all i) (hbusy : stage.Busy) :
    ∃ j, i ≤ j ∧ At id t e symbol stage ts all j ∧ e j = .move (.stream id) := by
  refine (hl.just (.stream id)).comes h (fun j _ hat he => hl.at_succ hat he) ?_
  intro hlast
  cases stage with
  | pacing => exact absurd hlast hl.not_pacing_for_good
  | opening due frames =>
    obtain ⟨k, hk⟩ := hl.passes_for_good due
    refine ⟨max i k, fun j hj => ?_⟩
    obtain ⟨-, -, s, hs, -, hst⟩ := hlast j (by omega)
    refine ready_of_goOn hs ?_
    have hdue := hk j (by omega)
    cases frames <;> simp [Connector.goOn, hst, hdue]
  | reading f next resume =>
    obtain ⟨k, hk⟩ := hl.passes_for_good resume
    refine ⟨max i k, fun j hj => ?_⟩
    obtain ⟨-, -, s, hs, -, hst⟩ := hlast j (by omega)
    refine ready_of_goOn hs ?_
    have hdue := hk j (by omega)
    simp only [Connector.goOn, hst, if_pos hdue]
    exact readItem_ne_none hbusy
  | sending trade f next =>
    obtain ⟨-, -, s₀, hs₀, -, -⟩ := h
    obtain ⟨k, hk⟩ := hl.queue_empties hs₀ fun j hj => (hlast j hj).2.1
    refine ⟨max i k, fun j hj => ?_⟩
    obtain ⟨-, -, s, hs, -, hst⟩ := hlast j (by omega)
    refine ready_of_goOn hs ?_
    have hempty := hk j (by omega) s hs
    have hpos := ((hl.found j).present id s hs).bounded.1
    have hopen := (hl.opened j s hs).1
    simp [Connector.goOn, hst, hopen, Channel.send?, hempty, hpos]
  | pausing due =>
    obtain ⟨k, hk⟩ := hl.passes_for_good due
    refine ⟨max i k, fun j hj => ?_⟩
    obtain ⟨-, -, s, hs, -, hst⟩ := hlast j (by omega)
    refine ready_of_goOn hs ?_
    simp [Connector.goOn, hst, hk j (by omega)]
  | ended => exact hbusy.elim

end Live
end

/-! ## Waiting for ever -/

/-- No one waits at the gate, and every stream has its consumer, an empty queue, and a connection
that is silent for good. -/
def Connector.isStill (c : Connector) : Bool :=
  c.gate.queue.isEmpty &&
    c.streams.all fun s => !s.queue.closed && s.queue.items.isEmpty &&
      match s.stage with
      | .reading f next _ => (f.item next).isNone && !f.closes
      | _ => false

section Still

variable {c : Connector} {id now : Nat} {s : Stream}

theorem stream_of_still (h : c.isStill = true) (hs : c.stream? id = some s) :
    s.queue.closed = false ∧ s.queue.items = [] ∧
      ∃ f next resume, s.stage = .reading f next resume ∧ f.item next = none ∧
        f.closes = false := by
  rw [Connector.isStill, Bool.and_eq_true, List.all_eq_true] at h
  have hsilent := h.2 s (List.mem_of_find?_eq_some hs)
  rw [Bool.and_eq_true, Bool.and_eq_true] at hsilent
  obtain ⟨⟨hopen, hempty⟩, hstage⟩ := hsilent
  refine ⟨by simpa using hopen, by simpa using hempty, ?_⟩
  split at hstage
  · rename_i f next resume hst
    rw [Bool.and_eq_true] at hstage
    exact ⟨f, next, resume, hst, by simpa using hstage.1, by simpa using hstage.2⟩
  · cases hstage

theorem step_none_of_still (h : c.isStill = true) (m : Connector.Move) :
    Connector.step now m c = none := by
  have hqueue : c.gate.queue = [] := by
    rw [Connector.isStill, Bool.and_eq_true] at h
    simpa using h.1
  have hacquire : ∀ who, c.gate.acquire? now who = none := by
    intro who
    rw [Gate.acquire?, hqueue]
    rfl
  cases m with
  | notice id =>
    refine Option.bind_eq_none_iff.2 fun s hs => ?_
    obtain ⟨hopen, -⟩ := stream_of_still h hs
    rw [Connector.notice, hopen]
    rfl
  | stream id =>
    refine Option.bind_eq_none_iff.2 fun s hs => ?_
    obtain ⟨-, -, f, next, resume, hst, hnone, hcloses⟩ := stream_of_still h hs
    simp [Connector.goOn, hst, Connector.readItem, hnone, hcloses]
  | fetch id =>
    refine Option.bind_eq_none_iff.2 fun f hf => ?_
    rw [Connector.goFetch, hacquire]
    rfl
  | look =>
    rw [Connector.step, Connector.look, Gate.count?, hqueue]
    rfl

/-- A schedule in which the consumer stays, and after which nothing is left to do, is the beginning
of a fair history. -/
theorem exists_fair (id : Nat) {es : List Event} {t t' : Timed Connector}
    {h : List (Incident (Timed Connector) Event)} (hr : History.replay happens es t = some (h, t'))
    (hstays : ∀ e ∈ es, e ≠ .drop id) (hstill : t'.world.isStill = true) :
    ∃ s e, Fair id s e ∧ s 0 = t ∧ incidents s e es.length = h ∧ s es.length = t' := by
  have hwaits : Endless happens (fun i => ⟨t'.now + i, t'.world⟩)
      (fun i => Event.wait (t'.now + i + 1)) :=
    ⟨fun i => if_pos (Nat.le_succ (t'.now + i))⟩
  obtain ⟨s, e, hend, hstart, hinc, hlate, hearly⟩ := hwaits.of_replay hr rfl
  have hlater : ∀ i, s (i + es.length) = ⟨t'.now + i, t'.world⟩ := fun i => (hlate i).1
  refine ⟨s, e, ⟨hend, ?_, ?_, ?_, ?_⟩, hstart, hinc, by simpa using hlater 0⟩
  · intro m i
    refine ⟨i + es.length, by omega, .inr ?_⟩
    rw [hlater, happens, step_none_of_still hstill]
    rfl
  · intro time
    refine ⟨time + es.length, ?_⟩
    rw [hlater]
    exact Nat.le_add_left _ _
  · intro i
    refine ⟨i + es.length, by omega, .inr fun s hs => ?_⟩
    rw [hlater] at hs
    exact (stream_of_still hstill hs).2.1
  · intro i
    rcases Nat.lt_or_ge i es.length with hi | hi
    · rw [hearly i hi]
      exact hstays _ (List.getElem_mem hi)
    · obtain ⟨d, rfl⟩ := Nat.exists_eq_add_of_le' hi
      rw [(hlate d).2]
      exact Event.noConfusion

end Still
end Binance
end MarketFeed
