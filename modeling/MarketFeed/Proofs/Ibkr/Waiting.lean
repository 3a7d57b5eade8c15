import MarketFeed.Proofs.Ibkr.Posts
import MarketFeed.Proofs.Pacing.Front

/-!
# MarketFeed.Proofs.Ibkr.Waiting

Who waits at the gate of a connector, and that no stream waits there for ever.

* `Gated`, `gated_of_history` — each task that waits for a grant is in the queue once, and no other
  number is.
* `Connector.moveOf` — what the first of the queue does to leave it. `Gated.ready` — it can, once
  all grants have left the window.
* `Fair` — a history without an end in which every task is treated justly and time passes.
* `Live.cancels` — a stream that is about to cancel its market data does so.
* `exists_fair`, `Fair.of_replay` — a schedule after which all is over begins a fair history.
-/

namespace MarketFeed
namespace Ibkr

/-! ## The queue -/

/-- The queue holds who waits for a grant. -/
def Gated (c : Connector) : Prop := ∀ id, c.gate.queue.count id = (c.post id).paces.toNat

section Queue

variable {t t' : Timed Connector} {e : Event} {c c' : Connector} {start now id i : Nat}
  {l l' : Lock} {g g' : Gate Nat} {b b' : Bool} {p p' : Post}
  {h : List (Incident (Timed Connector) Event)}

theorem Enters.count (h : Enters g id p g') (hout : g.queue.count id = 0) :
    g'.queue.count id = p.paces.toNat := by
  cases h with
  | queues =>
    rw [Gate.count_join, hout, if_pos rfl]
    rfl
  | leaves => exact hout

theorem Enters.count_other (h : Enters g id p g') (hne : id ≠ i) :
    g'.queue.count i = g.queue.count i := by
  cases h with
  | queues => rw [Gate.count_join, if_neg hne, Nat.add_zero]
  | leaves => rfl

/-- A grant takes one from the queue. -/
theorem count_of_acquire? (hgate : g.acquire? now id = some g') (i : Nat) :
    g.queue.count i = g'.queue.count i + if id = i then 1 else 0 := by
  obtain ⟨l, -, hfront, rfl⟩ := Gate.acquire?_eq_some hgate
  exact Gate.count_tail hfront i

theorem Shifts.count (h : Shifts now e id l g b p p' l' g' b')
    (hin : g.queue.count id = p.paces.toNat) : g'.queue.count id = p'.paces.toNat := by
  cases h with
  | stays | joins | changes => exact hin
  | uses _ hg | connects hg => exact hg.count hin
  | lacks | ends =>
    rw [Gate.count_join, hin, if_pos rfl]
    rfl
  | dials hgate =>
    rw [count_of_acquire? hgate, if_pos rfl] at hin
    exact Nat.succ.inj hin
  | asks _ hgate hg _ =>
    rw [count_of_acquire? hgate, if_pos rfl] at hin
    exact hg.count (Nat.succ.inj hin)
  | forgets =>
    rw [Gate.count_leave, if_pos rfl]
    rfl

theorem Shifts.count_other (h : Shifts now e id l g b p p' l' g' b') (hne : id ≠ i) :
    g'.queue.count i = g.queue.count i := by
  cases h with
  | stays | joins | changes => rfl
  | uses _ hg | connects hg => exact hg.count_other hne
  | lacks | ends => rw [Gate.count_join, if_neg hne, Nat.add_zero]
  | dials hgate => rw [count_of_acquire? hgate, if_neg hne, Nat.add_zero]
  | asks _ hgate hg _ =>
    rw [hg.count_other hne, count_of_acquire? hgate, if_neg hne, Nat.add_zero]
  | forgets => rw [Gate.count_leave, if_neg hne]

theorem Gated.next (h : Gated t.world) (hsound : Sound t.world) (he : happens e t = some t') :
    Gated t'.world := by
  obtain ⟨id, hshifts, hothers⟩ := shifts_of_happens hsound he
  intro i
  by_cases hid : id = i
  · subst hid
    exact hshifts.count (h id)
  · rw [hshifts.count_other hid, hothers i hid]
    exact h i

theorem gated_of_history {config : Config} {gateway : Gateway} {timeOfDay : Nat → Instant}
    (hc : Connector.new config gateway timeOfDay = .ok c) (hist : History happens ⟨start, c⟩ h t) :
    Gated t.world := by
  induction hist with
  | nil =>
    obtain ⟨l, -, rfl⟩ := new_eq hc
    exact fun _ => rfl
  | snoc hist he ih => exact ih.next (dialling_of_history hc hist).1 he

/-! ## Moving up -/

theorem Enters.nears (h : Enters g id p g') (hone : g.queue.count i = 1) :
    Gate.Nears i g g' := by
  have hmem : i ∈ g.queue := List.count_pos_iff.1 (by omega)
  cases h with
  | queues =>
    exact (Gate.Goes.joins id : Gate.Goes 0 g [] _).nears (Nat.le_of_eq hone) hmem
      (List.mem_append_left _ hmem)
  | leaves => exact .refl i g

/-- Whatever another task does, one that waits comes nearer to its grant. -/
theorem Shifts.nears (h : Shifts now e id l g b p p' l' g' b') (hne : id ≠ i)
    (hone : g.queue.count i = 1) : Gate.Nears i g g' := by
  have hle : g.queue.count i ≤ 1 := Nat.le_of_eq hone
  have hmem : i ∈ g.queue := List.count_pos_iff.1 (by omega)
  have hmem' : i ∈ g'.queue := List.count_pos_iff.1 (by rw [h.count_other hne]; omega)
  cases h with
  | stays | joins | changes => exact .refl i g
  | uses _ hg | connects hg => exact hg.nears hone
  | lacks | ends => exact (Gate.Goes.joins id : Gate.Goes now g [] _).nears hle hmem hmem'
  | dials hgate => exact (Gate.Goes.passes id hgate).nears hle hmem hmem'
  | asks _ hgate hg _ =>
    have hone' := hone
    rw [count_of_acquire? hgate, if_neg hne, Nat.add_zero] at hone'
    exact ((Gate.Goes.passes id hgate).nears hle hmem (List.count_pos_iff.1 (by omega))).trans
      (hg.nears hone')
  | forgets => exact (Gate.Goes.leaves id : Gate.Goes now g [] _).nears hle hmem hmem'

/-- One that waits for a grant stays where it is in the queue until it goes on. -/
theorem Shifts.gate_of_grant (h : Shifts now e id l g b .grant .grant l' g' b')
    (hstream : e ≠ .move (.stream id)) (hcall : e ≠ .move (.call id)) : g' = g := by
  cases h with
  | stays | changes => rfl
  | asks he => exact absurd he (not_or.2 ⟨hstream, hcall⟩)

/-- One behind the front moves up when the front goes on. -/
theorem idxOf_of_acquire?_lt {g'' : Gate Nat} (hgate : g.acquire? now id = some g')
    (hg : g'' = g' ∨ g'' = g'.join id) (hne : id ≠ i) (hone : g.queue.count i = 1) :
    g''.queue.idxOf i < g.queue.idxOf i := by
  have hcount := count_of_acquire? hgate i
  rw [if_neg hne, Nat.add_zero, hone] at hcount
  have hmem : i ∈ g'.queue := List.count_pos_iff.1 (by omega)
  obtain ⟨l, -, -, rfl⟩ := Gate.acquire?_eq_some hgate
  have hlt := Gate.idxOf_tail_lt (Nat.le_of_eq hone) hmem
  rcases hg with rfl | rfl
  · exact hlt
  · rwa [Gate.join, List.idxOf_append_of_mem hmem]

end Queue

/-! ## At the front -/

/-- How the task of a number goes on. -/
def Connector.moveOf (c : Connector) (id : Nat) : Connector.Move :=
  if (c.stream? id).isSome then .stream id else .call id

section Front

variable {t t' : Timed Connector} {c c' : Connector} {now id : Nat} {s s' : Stream} {k k' : Call}

theorem moveOf_of_stream (hs : c.stream? id = some s) : c.moveOf id = .stream id := by
  rw [Connector.moveOf, hs]
  rfl

theorem moveOf_of_none (hs : c.stream? id = none) : c.moveOf id = .call id := by
  rw [Connector.moveOf, hs]
  rfl

theorem goOn_of_acquire? {gate : Gate Nat} (hpaces : s.stage.post.paces = true)
    (hgate : c.gate.acquire? now s.id = some gate) : c.goOn now s ≠ none := by
  cases hst : s.stage with
  | connecting d =>
    cases d with
    | pacing => simp [Connector.goOn, hst, Connector.goDial, hgate]
    | _ => rw [hst] at hpaces; cases hpaces
  | pacing events => simp [Connector.goOn, hst, hgate]
  | cancelling gone => simp [Connector.goOn, hst, hgate]
  | _ => rw [hst] at hpaces; cases hpaces

theorem goCall_of_acquire? {gate : Gate Nat} (hpaces : k.stage.post.paces = true)
    (hgate : c.gate.acquire? now k.id = some gate) : c.goCall now k ≠ none := by
  cases hst : k.stage with
  | connecting d =>
    cases d with
    | pacing => simp [Connector.goCall, hst, Connector.goDial, hgate]
    | _ => rw [hst] at hpaces; cases hpaces
  | pacing => simp [Connector.goCall, hst, hgate]
  | finished result => rw [hst] at hpaces; cases hpaces

theorem Gated.paces (h : Gated c) (hfront : c.gate.queue.head? = some id) :
    (c.post id).paces = true := by
  have hpos := List.count_pos_iff.2 (List.mem_of_mem_head? hfront)
  rw [h id] at hpos
  exact Bool.toNat_eq_one.1 (by have := Bool.toNat_le (c.post id).paces; omega)

/-- The task at the front can go on once all grants have left the window. -/
theorem Gated.ready (h : Gated t.world) (hfront : t.world.gate.queue.head? = some id)
    (hpast : ∀ a ∈ t.world.gate.limiter.recent, a + t.world.gate.limiter.per ≤ t.now) :
    happens (.move (t.world.moveOf id)) t ≠ none := by
  obtain ⟨gate, hgate⟩ := Gate.acquire?_of_past hfront hpast
  have hpaces := h.paces hfront
  cases hs : t.world.stream? id with
  | some s =>
    have hid := id_of_stream? hs
    subst hid
    rw [post_of_stream hs] at hpaces
    simpa [happens, moveOf_of_stream hs, Connector.step, hs] using goOn_of_acquire? hpaces hgate
  | none =>
    cases hk : t.world.call? id with
    | some k =>
      have hid := id_of_call? hk
      subst hid
      rw [post_of_call hs hk] at hpaces
      have hfound : t.world.calls.find? (·.id = k.id) = some k := hk
      simpa [happens, moveOf_of_none hs, Connector.step, hfound] using
        goCall_of_acquire? hpaces hgate
    | none =>
      rw [post_of_none hs hk] at hpaces
      cases hpaces

theorem DialGoes.passes {d : Dial} {r : Connector.Dialled} (h : DialGoes now c id d r c')
    (hpaces : (Post.dial d).paces = true) : c.gate.acquire? now id = some c'.gate := by
  cases h with
  | dials hgate => exact hgate
  | _ => cases hpaces

theorem StreamGoes.passes (h : StreamGoes now c s s' c') (hpaces : s.stage.post.paces = true) :
    ∃ gate, c.gate.acquire? now s.id = some gate ∧
      (c'.gate = gate ∨ c'.gate = gate.join s.id) := by
  cases h with
  | dials hst hd =>
    rw [hst] at hpaces
    exact ⟨_, hd.passes hpaces, .inl rfl⟩
  | connects hst hd | refused hst hd =>
    rw [hst] at hpaces
    exact ⟨_, hd.passes hpaces, .inr rfl⟩
  | asks _ hgate | cancels _ hgate | retries _ hgate => exact ⟨_, hgate, .inl rfl⟩
  | denied _ hgate => exact ⟨_, hgate, .inr rfl⟩
  | hears hst | lags hst | ends hst | returns hst | sends hst | resumes hst =>
    rw [hst] at hpaces
    cases hpaces

theorem CallGoes.passes (h : CallGoes now c k k' c') (hpaces : k.stage.post.paces = true) :
    ∃ gate, c.gate.acquire? now k.id = some gate ∧
      (c'.gate = gate ∨ c'.gate = gate.join k.id) := by
  cases h with
  | dials hst hd | connects hst hd | refused hst hd =>
    rw [hst] at hpaces
    exact ⟨_, hd.passes hpaces, .inl rfl⟩
  | queues hst hd =>
    rw [hst] at hpaces
    exact ⟨_, hd.passes hpaces, .inr rfl⟩
  | asks _ hgate | idles _ hgate => exact ⟨_, hgate, .inl rfl⟩

/-- A task that waits for a grant goes on with one, and may join the queue again at its end. -/
theorem passes_of_happens (hpaces : (t.world.post id).paces = true)
    (he : happens (.move (t.world.moveOf id)) t = some t') :
    ∃ gate, t.world.gate.acquire? t.now id = some gate ∧
      (t'.world.gate = gate ∨ t'.world.gate = gate.join id) := by
  cases hs : t.world.stream? id with
  | some s =>
    rw [moveOf_of_stream hs] at he
    rw [post_of_stream hs] at hpaces
    cases happening_of_happens he with
    | goes hs₀ hg =>
      cases hs.symm.trans hs₀
      exact hg.passes hpaces
    | misses _ hno => simp at hno
  | none =>
    rw [moveOf_of_none hs] at he
    cases happening_of_happens he with
    | calls hk hg =>
      rw [post_of_call hs hk] at hpaces
      exact hg.passes hpaces
    | misses _ hno => simp at hno

theorem not_notices_of_cancelling {gone : Bool} (hst : s.stage = .cancelling gone) :
    ¬ Notices c s s' c' := by
  intro hn
  cases hn with | _ hst' => cases hst.symm.trans hst'

/-- A stream does not go on as a call. -/
theorem call_none_of_stream (hsound : Sound t.world) (hs : t.world.stream? id = some s) :
    happens (.move (.call id)) t = none := by
  have hk : t.world.calls.find? (·.id = id) = none :=
    (hsound.apart id).resolve_left fun hno => by cases hno.symm.trans hs
  rw [happens, Connector.step, hk]
  rfl

end Front

/-! ## No waiting for ever -/

/-- A history without an end: every task that may go on does so at some time, and time passes
beyond every bound. -/
structure Fair (t : Nat → Timed Connector) (e : Nat → Event) : Prop where
  endless : Endless happens t e
  just : ∀ m, Just happens t e (.move m)
  passes : ∀ time, ∃ i, time ≤ (t i).now

/-- A fair history of a connector that was new at its start. -/
structure Live (t : Nat → Timed Connector) (e : Nat → Event) : Prop extends Fair t e where
  sound : ∀ i, Sound (t i).world
  gated : ∀ i, Gated (t i).world

/-- At a moment a stream is about to cancel, and what it has done before. -/
def Cancelling (id : Nat) (t : Nat → Timed Connector) (e : Nat → Event) (contract : Contract)
    (gone : Bool) (ds : List Deed) (i : Nat) : Prop :=
  deeds id (incidents t e i) = ds ∧
    ∃ s, (t i).world.stream? id = some s ∧ s.contract = contract ∧ s.stage = .cancelling gone

section Live

variable {config : Config} {gateway : Gateway} {timeOfDay : Nat → Instant} {c : Connector}
  {start id : Nat} {t : Nat → Timed Connector} {e : Nat → Event} {i j : Nat} {s : Stream}
  {contract : Contract} {gone : Bool} {ds : List Deed}

theorem Fair.live (hf : Fair t e) (hc : Connector.new config gateway timeOfDay = .ok c)
    (hstart : t 0 = ⟨start, c⟩) : Live t e where
  toFair := hf
  sound i := (dialling_of_history hc (hstart ▸ hf.endless.history i)).1
  gated i := gated_of_history hc (hstart ▸ hf.endless.history i)

/-- When the stream goes on it cancels, and it disconnects if its consumer has not gone. -/
theorem Cancelling.goes (h : Cancelling id t e contract gone ds i)
    (he : e i = .move (.stream id)) :
    deeds id (incidents t e (i + 1)) =
      ds ++ Deed.calls (.cancel contract) :: if gone then [] else [.calls .disconnect] := by
  obtain ⟨hds, s, hs, rfl, hst⟩ := h
  rw [incidents_succ, deeds_concat, hds, he, deedsAt_stream hs, deedsOf, hst]
  cases gone <;> rfl

theorem Cancelling.not_succ (h : Cancelling id t e contract gone ds i)
    (he : e i = .move (.stream id)) : ¬ Cancelling id t e contract gone ds (i + 1) := by
  intro h'
  have hdeeds := (h.goes he).symm.trans h'.1
  simp at hdeeds

namespace Live

variable (hl : Live t e)
include hl

theorem passes_for_good (time : Nat) : ∃ k, ∀ j, k ≤ j → time ≤ (t j).now :=
  eventually_ge (fun j => now_le_of_happens (hl.endless.goes j)) hl.passes time

/-- A stream is there for good. -/
theorem stream?_of_le (hij : i ≤ j) (hs : (t i).world.stream? id = some s) :
    ∃ s', (t j).world.stream? id = some s' := by
  induction j, hij using Nat.le_induction with
  | base => exact ⟨s, hs⟩
  | succ j _ ih =>
    obtain ⟨s₁, hs₁⟩ := ih
    cases fares_of_happens (hl.endless.goes j) id with
    | goes _ _ _ hs' | notices _ _ _ hs' | serves _ _ _ hs' | begins _ _ hs' => exact ⟨_, hs'⟩
    | stays hsame => exact ⟨s₁, hsame.trans hs₁⟩

/-- From some moment on it is clear whether a number is that of a stream. -/
theorem moveOf_settles (id k : Nat) :
    ∃ m k', k ≤ k' ∧ ∀ j, k' ≤ j → (t j).world.moveOf id = m := by
  by_cases hsome : ∃ k', k ≤ k' ∧ ∃ s, (t k').world.stream? id = some s
  · obtain ⟨k', hk, s, hs⟩ := hsome
    refine ⟨.stream id, k', hk, fun j hj => ?_⟩
    obtain ⟨s', hs'⟩ := hl.stream?_of_le hj hs
    exact moveOf_of_stream hs'
  · refine ⟨.call id, k, Nat.le_refl k, fun j hj => moveOf_of_none ?_⟩
    cases hs : (t j).world.stream? id with
    | none => rfl
    | some s => exact absurd ⟨j, hj, s, hs⟩ hsome

/-- A stream stays about to cancel until it goes on. -/
theorem cancelling_succ (h : Cancelling id t e contract gone ds i)
    (he : e i ≠ .move (.stream id)) : Cancelling id t e contract gone ds (i + 1) := by
  obtain ⟨hds, s, hs, hcontract, hst⟩ := h
  rw [Cancelling, incidents_succ, deeds_concat, deedsAt_of_ne he, List.append_nil]
  refine ⟨hds, ?_⟩
  cases fares_of_happens (hl.endless.goes i) id with
  | goes _ hevent => exact absurd hevent he
  | notices hs₀ _ hn =>
    cases hs.symm.trans hs₀
    exact absurd hn (not_notices_of_cancelling hst)
  | serves hs₀ _ _ hs' =>
    cases hs.symm.trans hs₀
    exact ⟨_, hs', hcontract, hst⟩
  | begins hs₀ => cases hs.symm.trans hs₀
  | stays hsame => exact ⟨s, hsame.trans hs, hcontract, hst⟩

/-- The gate between two moments at which the stream is about to cancel. -/
theorem gate_succ (h : Cancelling id t e contract gone ds i)
    (h' : Cancelling id t e contract gone ds (i + 1)) :
    Gate.Nears id (t i).world.gate (t (i + 1)).world.gate := by
  have hcount := hl.gated i id
  have hmove : e i ≠ .move (.stream id) := fun he => h.not_succ he h'
  obtain ⟨-, s, hs, -, hst⟩ := h
  obtain ⟨-, s', hs', -, hst'⟩ := h'
  have hcall : e i ≠ .move (.call id) := by
    intro he
    have hnone := call_none_of_stream (hl.sound i) hs
    rw [← he, hl.endless.goes i] at hnone
    cases hnone
  obtain ⟨who, hshifts, -⟩ := shifts_of_happens (hl.sound i) (hl.endless.goes i)
  rw [post_of_stream hs, hst] at hcount
  by_cases hid : who = id
  · subst hid
    rw [post_of_stream hs, post_of_stream hs', hst, hst'] at hshifts
    rw [hshifts.gate_of_grant hmove hcall]
    exact .refl _ _
  · exact hshifts.nears hid hcount

/-- No stream waits for ever to cancel. -/
theorem not_cancelling_for_good : ¬ ∀ j, i ≤ j → Cancelling id t e contract gone ds j := by
  intro hlast
  have hone : ∀ j, i ≤ j → (t j).world.gate.queue.count id = 1 := by
    intro j hj
    obtain ⟨-, s, hs, -, hst⟩ := hlast j hj
    rw [hl.gated j id, post_of_stream hs, hst]
    rfl
  have hmem (j : Nat) (hj : i ≤ j) : id ∈ (t j).world.gate.queue :=
    List.count_pos_iff.1 (by rw [hone j hj]; exact Nat.zero_lt_one)
  refine Gate.not_queued_for_good hmem
    (fun j hj => hl.gate_succ (hlast j hj) (hlast (j + 1) (by omega))) hl.passes_for_good ?_
  intro first k hk hfront
  -- the task at the front can go on, so it does, and leaves the queue
  obtain ⟨m, k', hk', hm⟩ := hl.moveOf_settles first k
  obtain ⟨j, hj, he | hnone⟩ := hl.just m k'
  · have hgo := hl.endless.goes j
    rw [he, ← hm j hj] at hgo
    have hpaces := (hl.gated j).paces (hfront j (by omega)).1
    obtain ⟨gate, hgate, hgate'⟩ := passes_of_happens hpaces hgo
    have hother : first ≠ id := by
      rintro rfl
      obtain ⟨-, s, hs, -⟩ := hlast j (by omega)
      refine (hlast j (by omega)).not_succ ?_ (hlast (j + 1) (by omega))
      rw [he, ← hm j hj, moveOf_of_stream hs]
    refine ⟨j, by omega, ?_⟩
    exact idxOf_of_acquire?_lt hgate hgate' hother (hone j (by omega))
  · rw [← hm j hj] at hnone
    exact absurd hnone ((hl.gated j).ready (hfront j (by omega)).1 (hfront j (by omega)).2)

/-- A stream that is about to cancel its market data does so. -/
theorem cancels (hs : (t i).world.stream? id = some s) (hst : s.stage = .cancelling gone) :
    ∃ j, i ≤ j ∧ deeds id (incidents t e j) = deeds id (incidents t e i) ++
      Deed.calls (.cancel s.contract) :: if gone then [] else [.calls .disconnect] := by
  have hnow : Cancelling id t e s.contract gone (deeds id (incidents t e i)) i :=
    ⟨rfl, s, hs, rfl, hst⟩
  obtain ⟨j, hj, hat, he⟩ := (hl.just (.stream id)).comes hnow
    (fun j _ hat he => hl.cancelling_succ hat he) (fun hlast => absurd hlast
      hl.not_cancelling_for_good)
  exact ⟨j + 1, by omega, hat.goes he⟩

end Live
end Live

/-! ## Waiting for ever -/

/-- There are no calls, and all streams have ended. -/
def Connector.isOver (c : Connector) : Bool :=
  c.calls.isEmpty && c.streams.all fun s =>
    match s.stage with
    | .ended => true
    | _ => false

section Over

variable {c : Connector} {id now : Nat} {s : Stream}

theorem ended_of_over (h : c.isOver = true) (hs : c.stream? id = some s) : s.stage = .ended := by
  rw [Connector.isOver, Bool.and_eq_true, List.all_eq_true] at h
  have hended := h.2 s (List.mem_of_find?_eq_some hs)
  split at hended
  · assumption
  · cases hended

theorem step_none_of_over (h : c.isOver = true) (m : Connector.Move) :
    Connector.step now m c = none := by
  cases m with
  | call id =>
    rw [Connector.isOver, Bool.and_eq_true] at h
    have hcalls : c.calls = [] := by simpa using h.1
    rw [Connector.step, hcalls]
    rfl
  | notice id =>
    refine Option.bind_eq_none_iff.2 fun s hs => ?_
    simp [Connector.notice, ended_of_over h hs]
  | stream id =>
    refine Option.bind_eq_none_iff.2 fun s hs => ?_
    simp [Connector.goOn, ended_of_over h hs]

/-- Where no task can go on, time may pass. -/
theorem fair_of_rest (now : Nat) (h : ∀ now m, Connector.step now m c = none) :
    Fair (fun i => ⟨now + i, c⟩) (fun i => .wait (now + i + 1)) where
  endless := ⟨fun i => if_pos (Nat.le_succ (now + i))⟩
  just m i := by
    refine ⟨i, Nat.le_refl i, .inr ?_⟩
    rw [happens, h]
    rfl
  passes time := ⟨time, Nat.le_add_left _ _⟩

theorem exists_fair (now : Nat) (h : c.isOver = true) : ∃ t e, Fair t e ∧ t 0 = ⟨now, c⟩ :=
  ⟨_, _, fair_of_rest now fun _ => step_none_of_over h, rfl⟩

/-- What is fair from some moment on is fair. -/
theorem Fair.of_replay {es : List Event} {t₀ t₁ : Timed Connector}
    {h : List (Incident (Timed Connector) Event)} {t : Nat → Timed Connector} {e : Nat → Event}
    (hf : Fair t e) (hr : History.replay happens es t₀ = some (h, t₁)) (hstart : t 0 = t₁) :
    ∃ t' e', Fair t' e' ∧ t' 0 = t₀ ∧ incidents t' e' es.length = h ∧ t' es.length = t₁ := by
  obtain ⟨t', e', hend, hstart', hinc, hlate, -⟩ := hf.endless.of_replay hr hstart
  refine ⟨t', e', ⟨hend, fun m => (hf.just m).of_later hlate, fun time => ?_⟩, hstart', hinc, ?_⟩
  · obtain ⟨i, hi⟩ := hf.passes time
    exact ⟨i + es.length, (hlate i).1 ▸ hi⟩
  · rw [← hstart, ← (hlate 0).1, Nat.zero_add]

end Over
end Ibkr
end MarketFeed
