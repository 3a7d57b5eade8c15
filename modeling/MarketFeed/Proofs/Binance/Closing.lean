import MarketFeed.Proofs.Binance.Trail

/-!
# MarketFeed.Proofs.Binance.Closing

A stream whose consumer has gone.

* `accepted_of_closed` — no trade enters its queue any more.
* `Prompt` — a stream that has only just begun to pause notices before time passes;
  `prompt_of_rest` — it does where the clock stands still while any task can go on.
* `numbers_of_closed` — then it opens the feed once more at most.
-/

namespace MarketFeed
namespace Binance

variable {t t' : Timed Connector} {e : Event} {s s' : Stream} {id : Nat}
  {h : List (Incident (Timed Connector) Event)}

/-- A consumer that has gone stays away, and nothing enters the queue without it. -/
theorem closed_of_happens (he : happens e t = some t') (hs : t.world.stream? id = some s)
    (hclosed : s.queue.closed = true) :
    acceptedAt id ⟨t, e, t'⟩ = [] ∧
      ∃ s', t'.world.stream? id = some s' ∧ s'.queue.closed = true := by
  cases fares_of_happens he id with
  | goes hs₀ _ _ hg hs' =>
    rw [hs] at hs₀
    cases hs₀
    rcases hg.queue with hsame | ⟨hopen, -⟩
    · rw [acceptedAt_of_some hs hs', hsame, List.drop_length]
      exact ⟨rfl, _, hs', hsame ▸ hclosed⟩
    · rw [hclosed] at hopen
      cases hopen
  | notices hs₀ _ _ hs' =>
    rw [hs] at hs₀
    cases hs₀
    rw [acceptedAt_of_some hs hs']
    exact ⟨List.drop_length, _, hs', hclosed⟩
  | receives hs₀ _ hs' =>
    rw [hs] at hs₀
    cases hs₀
    rw [receive_queue] at hs'
    rw [acceptedAt_of_some hs hs', List.drop_eq_nil_iff, List.length_tail]
    exact ⟨Nat.sub_le _ _, _, hs', hclosed⟩
  | drops hs₀ _ hs' =>
    rw [hs] at hs₀
    cases hs₀
    rw [acceptedAt_of_some hs hs']
    exact ⟨List.drop_nil, _, hs', rfl⟩
  | begins hs₀ _ _ _ => rw [hs] at hs₀; cases hs₀
  | stays hsame _ _ =>
    rw [acceptedAt_of_some hs (hsame.trans hs), List.drop_length]
    exact ⟨rfl, _, hsame.trans hs, hclosed⟩

theorem accepted_of_closed (hist : History happens t h t') (hs : t.world.stream? id = some s)
    (hclosed : s.queue.closed = true) :
    accepted id h = [] ∧ ∃ s', t'.world.stream? id = some s' ∧ s'.queue.closed = true := by
  induction hist with
  | nil => exact ⟨rfl, s, hs, hclosed⟩
  | snoc _ he ih =>
    obtain ⟨hnone, s', hs', hclosed'⟩ := ih
    rw [accepted_concat, hnone]
    exact closed_of_happens he hs' hclosed'

/-! ## Further openings -/

/-- A stream without a consumer that begins to pause notices this before time passes: the wait for
the delay and the look for the consumer begin together. -/
def Prompt (id : Nat) (h : List (Incident (Timed Connector) Event)) : Prop :=
  ∀ x ∈ h, ∀ time s, x.event = .wait time → x.before.world.stream? id = some s →
    s.queue.closed = true → s.stage = .pausing (x.before.now + x.before.world.reconnectDelay) →
    time ≤ x.before.now

/-- A clock that stands still while any task can go on is prompt. -/
theorem prompt_of_rest (hrest : ∀ x ∈ h, ∀ time, x.event = .wait time → x.before.now < time →
    ∀ m, Connector.step x.before.now m x.before.world = none) : Prompt id h := by
  intro x hx time s hevent hs hclosed hst
  by_contra hlater
  have hnone := hrest x hx time hevent (Nat.not_le.1 hlater) (.notice id)
  simp [Connector.step, hs, Connector.notice, hclosed, hst, Connector.looksForConsumer] at hnone

/-- How a stream without a consumer stands after some further openings: after the first one it is
not on its way to another. -/
def Winding (now delay : Nat) (stage : Stage) : List Nat → Prop
  | [] => True
  | [_] =>
    match stage with
    | .pacing => False
    | .pausing due => due = now + delay
    | _ => True
  | _ => False

theorem winding_goes {now delay : Nat} {c c' : Connector} {ks : List Nat}
    (hw : Winding now delay s.stage ks) (hg : StreamGoes now c s s' c')
    (hdelay : c.reconnectDelay = delay) (hpos : 0 < delay) :
    Winding now delay s'.stage (ks ++ numbers (turnOf now c s').toList) := by
  match ks with
  | [] =>
    cases hg with
    | _ => subst_vars; exact trivial
  | [k] =>
    cases hg with
    | opens hst _ _ => rw [hst] at hw; exact hw.elim
    | resumes hst hdue _ =>
      rw [hst] at hw
      have heq : _ = now + delay := hw
      omega
    | _ => subst_vars; first | exact trivial | exact rfl

/-- Whatever else happens leaves the stream standing where it was, or ended. -/
theorem winding_of_happens {delay : Nat} {ks : List Nat} (hw : Winding t.now delay s.stage ks)
    (he : happens e t = some t') (hs : t.world.stream? id = some s)
    (hdelay : t.world.reconnectDelay = delay) (hpos : 0 < delay)
    (hprompt : ∀ time, e = .wait time → s.stage = .pausing (t.now + delay) → time ≤ t.now)
    (hs' : t'.world.stream? id = some s') :
    Winding t'.now delay s'.stage (ks ++ numbers (turnAt? id ⟨t, e, t'⟩).toList) := by
  cases fares_of_happens he id with
  | goes hs₀ hevent hnow hg hs₁ =>
    rw [hs] at hs₀
    cases hs₀
    rw [hs'] at hs₁
    cases hs₁
    subst hevent
    rw [turnAt?_stream hs', hnow]
    exact winding_goes hw hg hdelay hpos
  | notices hs₀ hevent _ hs₁ =>
    rw [hs'] at hs₁
    cases hs₁
    rw [turnAt?_of_ne (by simp [hevent]), Option.toList_none]
    match ks with
    | [] => exact trivial
    | [_] => exact trivial
  | receives hs₀ hevent hs₁ =>
    rw [hs] at hs₀
    cases hs₀
    rw [hs'] at hs₁
    cases hs₁
    subst hevent
    cases he
    rw [turnAt?_of_ne (by simp), Option.toList_none, numbers, List.filterMap_nil, List.append_nil]
    exact hw
  | drops hs₀ hevent hs₁ =>
    rw [hs] at hs₀
    cases hs₀
    rw [hs'] at hs₁
    cases hs₁
    subst hevent
    cases he
    rw [turnAt?_of_ne (by simp), Option.toList_none, numbers, List.filterMap_nil, List.append_nil]
    exact hw
  | begins hs₀ _ _ _ => rw [hs] at hs₀; cases hs₀
  | stays hsame hevent _ =>
    rw [hsame, hs] at hs'
    cases hs'
    rw [turnAt?_of_ne hevent, Option.toList_none, numbers, List.filterMap_nil, List.append_nil]
    have hnow : s.stage = .pausing (t.now + delay) → t'.now = t.now := by
      intro hst
      cases happening_of_happens he with
      | waits hle => exact Nat.le_antisymm (hprompt _ rfl hst) hle
      | _ => rfl
    match ks with
    | [] => exact trivial
    | [_] =>
      simp only [Winding] at hw ⊢
      split at hw
      · exact hw
      · rename_i hst
        rw [hw] at hst ⊢
        rw [hnow hst]
      · exact trivial

/-- A stream without a consumer opens the feed once more at most. -/
theorem numbers_of_closed (hist : History happens t h t') (hs : t.world.stream? id = some s)
    (hclosed : s.queue.closed = true) (hpos : 0 < t.world.reconnectDelay)
    (hprompt : Prompt id h) : (numbers (turns id h)).length ≤ 1 := by
  have hwinding : t'.world.reconnectDelay = t.world.reconnectDelay ∧
      ∀ s', t'.world.stream? id = some s' →
        Winding t'.now t.world.reconnectDelay s'.stage (numbers (turns id h)) := by
    induction hist with
    | nil => exact ⟨rfl, fun _ _ => trivial⟩
    | @snoc h t' t'' e hist he ih =>
      obtain ⟨hdelay, hw⟩ := ih fun x hx => hprompt x (List.mem_append_left _ hx)
      obtain ⟨-, s', hs', hclosed'⟩ := accepted_of_closed hist hs hclosed
      refine ⟨?_, ?_⟩
      · rw [← hdelay, Connector.reconnectDelay, (configured_of_happens he).1]
        rfl
      · intro s'' hs''
        rw [turns_concat, numbers_append]
        refine winding_of_happens (hw s' hs') he hs' hdelay hpos ?_ hs''
        intro time hevent hst
        refine hprompt ⟨t', e, t''⟩ ?_ time s' hevent hs' hclosed' ?_
        · exact List.mem_append_right _ (List.mem_singleton_self _)
        · rwa [hdelay]
  obtain ⟨-, s', hs', -⟩ := accepted_of_closed hist hs hclosed
  have hw := hwinding.2 s' hs'
  rcases hks : numbers (turns id h) with _ | ⟨_, _ | ⟨_, _⟩⟩
  · exact Nat.zero_le _
  · exact Nat.le_refl _
  · rw [hks] at hw
    exact hw.elim

end Binance
end MarketFeed
