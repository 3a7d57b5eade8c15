import MarketFeed.Proofs.Ibkr.Sessions
import MarketFeed.Proofs.Ibkr.Posts

/-!
# MarketFeed.Proofs.Ibkr.Grants

Every call to the gateway but the disconnecting one takes a grant of its own.

* `GatewayCall.isPaced`, `pacedTimes` — the calls that need a grant, and when they were made.
* `Paces`, `paces_of_happens` — what an event does to the gate: every call takes a grant at the time
  of the call, and there are no other grants.
* `course_of_history` — so the calls of a whole history are the grants of the gate.
-/

namespace MarketFeed
namespace Ibkr

/-- To disconnect needs no grant. -/
def GatewayCall.isPaced : GatewayCall → Bool
  | .disconnect => false
  | _ => true

/-- The times of the calls that need a grant. -/
def pacedTimes (calls : List (Nat × GatewayCall)) : List Nat :=
  (calls.filter fun p => p.2.isPaced).map Prod.fst

theorem pacedTimes_append (calls new : List (Nat × GatewayCall)) :
    pacedTimes (calls ++ new) = pacedTimes calls ++ pacedTimes new := by
  rw [pacedTimes, List.filter_append, List.map_append]
  rfl

/-- What becomes of the gate and of the calls to the gateway at one time: every call that needs a
grant takes one then, and there are no other grants. -/
def Paces (now : Nat) (c c' : Connector) : Prop :=
  ∃ new, c'.gateway.calls = c.gateway.calls ++ new ∧ (∀ p ∈ new, p.1 = now) ∧
    c.gate.Course now (pacedTimes new) now c'.gate

section Events

variable {c c' : Connector} {s s' : Stream} {k k' : Call} {now id : Nat} {t t' : Timed Connector}
  {e : Event}

/-- Nothing is called, and the gate stays as it is. -/
theorem Paces.of_eq (hgate : c'.gate = c.gate) (hcalls : c'.gateway.calls = c.gateway.calls) :
    Paces now c c' :=
  ⟨[], by rw [hcalls, List.append_nil], fun _ hp => absurd hp List.not_mem_nil, hgate ▸ .refl⟩

/-- Nothing is called, and there is no grant. -/
theorem Paces.of_goes (hgate : c.gate.Goes now [] c'.gate)
    (hcalls : c'.gateway.calls = c.gateway.calls) : Paces now c c' :=
  ⟨[], by rw [hcalls, List.append_nil], fun _ hp => absurd hp List.not_mem_nil,
    Gate.Course.refl.goes hgate⟩

/-- One call takes a grant. Another that needs none may follow. -/
theorem Paces.of_grant {gate : Gate Nat} (new : List GatewayCall)
    (hgate : c.gate.acquire? now id = some gate) (hone : (new.filter (·.isPaced)).length = 1)
    (hcalls : c'.gateway.calls = c.gateway.calls ++ new.map (now, ·)) (hgate' : c'.gate = gate) :
    Paces now c c' := by
  refine ⟨_, hcalls, fun p hp => ?_, ?_⟩
  · obtain ⟨call, -, rfl⟩ := List.mem_map.1 hp
    rfl
  · have htimes : pacedTimes (new.map (now, ·)) = [now] := by
      obtain ⟨call, hcall⟩ := List.length_eq_one_iff.1 hone
      rw [pacedTimes, List.filter_map, List.map_map]
      exact congrArg (List.map fun _ => now) hcall
    rw [htimes, hgate']
    exact Gate.Course.refl.goes (.passes id hgate)

/-- A caller that has done so may queue up at the gate once more. -/
theorem Paces.joins (h : Paces now c c') (id : Nat) {c'' : Connector}
    (hgate : c''.gate = c'.gate.join id) (hcalls : c''.gateway.calls = c'.gateway.calls) :
    Paces now c c'' := by
  obtain ⟨new, hnew, htimes, hcourse⟩ := h
  refine ⟨new, hcalls.trans hnew, htimes, ?_⟩
  rw [hgate, ← List.append_nil (pacedTimes new)]
  exact hcourse.goes (.joins id)

theorem DialGoes.paces {d : Dial} {r : Connector.Dialled} (h : DialGoes now c id d r c') :
    Paces now c c' := by
  cases h with
  | lacks => exact .of_goes (.joins id) rfl
  | dials hgate => exact .of_grant [.connect] hgate rfl rfl rfl
  | _ => exact .of_eq rfl rfl

theorem StreamGoes.paces (h : StreamGoes now c s s' c') : Paces now c c' := by
  cases h with
  | dials hst hd => exact hd.paces
  | connects hst hd | refused hst hd => exact hd.paces.joins s.id rfl rfl
  | asks hst hgate => exact .of_grant [.marketData s.contract] hgate rfl rfl rfl
  | @denied _ gate _ _ hst hgate =>
    have hasked : Paces now c
        { c with gate, gateway := c.gateway.log now (.marketData s.contract) } :=
      .of_grant [.marketData s.contract] hgate rfl rfl rfl
    exact hasked.joins s.id rfl rfl
  | ends hst => exact .of_goes (.joins s.id) rfl
  | cancels hst hgate => exact .of_grant [.cancel s.contract] hgate rfl rfl rfl
  | retries hst hgate =>
    refine .of_grant [.cancel s.contract, .disconnect] hgate rfl ?_ rfl
    exact List.append_assoc _ _ _
  | _ => exact .of_eq rfl rfl

theorem Notices.paces (h : Notices c s s' c') : Paces now c c' := by
  cases h with
  | reading | sending => exact .of_goes (.joins s.id) rfl
  | pausing => exact .of_eq rfl rfl

theorem CallGoes.paces (h : CallGoes now c k k' c')
    (hconnects : k.task = .connect → k.stage ≠ .pacing) : Paces now c c' := by
  cases h with
  | dials hst hd | connects hst hd | refused hst hd => exact hd.paces
  | queues hst hd => exact hd.paces.joins k.id rfl rfl
  | asks hst hgate => exact .of_grant [.history _ _] hgate rfl rfl rfl
  | idles hst hgate htask => exact absurd hst (hconnects htask)

/-- Every event paces the calls that come of it. -/
theorem paces_of_happens (hsound : Sound t.world) (he : happens e t = some t') :
    Paces t.now t.world t'.world := by
  cases happening_of_happens he with
  | goes hs hg => exact hg.paces
  | notices hs hn => exact hn.paces
  | calls hk hg => exact hg.paces (hsound.connects _ _ hk)
  | forgets hk => exact .of_goes (.leaves _) rfl
  | changes hcalls => exact .of_eq rfl hcalls
  | _ => exact .of_eq rfl rfl

end Events

/-- The calls that need a grant are the grants of the gate, one each and at the same time, and every
single event sees to that. -/
theorem course_of_history {config : Config} {gateway : Gateway} {timeOfDay : Nat → Instant}
    {c : Connector} {start : Nat} {h : List (Incident (Timed Connector) Event)}
    {t : Timed Connector} (hc : Connector.new config gateway timeOfDay = .ok c)
    (hist : History happens ⟨start, c⟩ h t) :
    (∀ x ∈ h, Paces x.before.now x.before.world x.after.world) ∧
      ∃ new, t.world.gateway.calls = gateway.calls ++ new ∧
        c.gate.Course start (pacedTimes new) t.now t.world.gate := by
  induction hist with
  | nil =>
    obtain ⟨l, -, rfl⟩ := new_eq hc
    exact ⟨fun x hx => absurd hx List.not_mem_nil, [], (List.append_nil _).symm, .refl⟩
  | @snoc h t t' e hist he ih =>
    obtain ⟨hall, new, hcalls, hcourse⟩ := ih
    have hpaces := paces_of_happens (dialling_of_history hc hist).1 he
    refine ⟨fun x hx => ?_, ?_⟩
    · rcases List.mem_append.1 hx with hx | hx
      · exact hall x hx
      · obtain rfl := List.mem_singleton.1 hx
        exact hpaces
    · obtain ⟨more, hmore, -, hgoes⟩ := hpaces
      refine ⟨new ++ more, by rw [hmore, hcalls, List.append_assoc], ?_⟩
      rw [pacedTimes_append]
      exact (hcourse.trans hgoes).later (now_le_of_happens he)

end Ibkr
end MarketFeed
