import MarketFeed.Ibkr.Connector
import MarketFeed.Proofs.Pacing.Window
import MarketFeed.Proofs.Tasks.History
import MarketFeed.Proofs.Tasks.Numbered

/-!
# MarketFeed.Proofs.Ibkr.Steps

What can happen to a connector, and what it comes to for one of its streams.

* `Event`, `happens` — its tasks go on in any order, others call it, consumers take tickers or go,
  the gateway changes by itself, and time passes.
* `DialGoes`, `StreamGoes`, `Notices`, `CallGoes` — all that tasks can do next.
* `Happening`, `happening_of_happens` — all that can happen, and what comes of it.
* `Fares`, `fares_of_happens` — what an event does to one stream.
-/

namespace MarketFeed
namespace Ibkr

/-! ## Events -/

inductive Event where
  | move (m : Connector.Move)
  | call (task : Task)
  /-- The result of a call is taken, or the call is given up. -/
  | forget (id : Nat)
  | openStream (contract : Contract)
  | receive (id : Nat)
  /-- The consumer of a stream goes. -/
  | drop (id : Nat)
  /-- The gateway is another one from now on, but with the calls that were made. -/
  | change (g : Gateway)
  | wait (time : Nat)

namespace Connector

def call? (c : Connector) (id : Nat) : Option Call := c.calls.find? (·.id = id)

/-- A call is forgotten, and it waits no longer. -/
def forget (c : Connector) (id : Nat) : Connector :=
  { c.forgetCall id with gate := c.gate.leave id, dialLock := c.dialLock.leave id }

end Connector

def happens (e : Event) (t : Timed Connector) : Option (Timed Connector) :=
  match e with
  | .move m => (Connector.step t.now m t.world).map fun c => { t with world := c }
  | .call task => some (t.update fun c => (c.call task).2)
  | .forget id => (t.world.call? id).map fun _ => t.update fun c => c.forget id
  | .openStream contract => some (t.update fun c => (c.openStream contract).2)
  | .receive id => some (t.update fun c => (c.receive id).2)
  | .drop id => some (t.update fun c => c.dropStream id)
  | .change g =>
    if g.calls = t.world.gateway.calls then some (t.update fun c => { c with gateway := g })
    else none
  | .wait time => if t.now ≤ time then some { t with now := time } else none

/-- A new connector: no one waits, and it has done nothing. -/
theorem new_eq {config : Config} {gateway : Gateway} {timeOfDay : Nat → Instant} {c : Connector}
    (h : Connector.new config gateway timeOfDay = .ok c) :
    ∃ l, Limiter.new config.rateLimit (.ofSeconds config.rateWindowSeconds.toNat) = .ok l ∧
      c = ⟨config, gateway, .new l, .free, [], [], 0, timeOfDay⟩ := by
  unfold Connector.new at h
  split at h
  · rename_i l hl
    cases h
    exact ⟨l, hl, rfl⟩
  · cases h

/-! ## One task among others -/

section Views

variable {c : Connector} {s t : Stream} {k l : Call} {id : Nat}

theorem id_of_stream? (h : c.stream? id = some s) : s.id = id := by
  simpa using List.find?_some h

theorem id_of_call? (h : c.call? id = some k) : k.id = id := by
  simpa using List.find?_some h

theorem stream?_setStream_self (h : c.stream? s.id = some t) :
    (c.setStream s).stream? s.id = some s := find?_update_self Stream.id (fun _ _ => rfl) h

theorem stream?_setStream_of_ne (h : s.id ≠ id) : (c.setStream s).stream? id = c.stream? id :=
  find?_update_of_ne Stream.id (fun _ _ => rfl) h.symm

theorem call?_setCall_self (h : c.call? k.id = some l) : (c.setCall k).call? k.id = some k :=
  find?_update_self Call.id (fun _ _ => rfl) h

theorem call?_setCall_of_ne (h : k.id ≠ id) : (c.setCall k).call? id = c.call? id :=
  find?_update_of_ne Call.id (fun _ _ => rfl) h.symm

end Views

/-! ## Connecting -/

open Connector (Dialled)

/-- What a caller does when it goes on being connected. -/
inductive DialGoes (now : Nat) (c : Connector) (id : Nat) : Dial → Dialled → Connector → Prop where
  | uses (hheld : c.dialLock.heldBy id = true) (hthere : c.gateway.isConnected = true) :
      DialGoes now c id .locking (.done (.ok ())) (c.leaveDial id)
  | lacks (hheld : c.dialLock.heldBy id = true) (hthere : c.gateway.isConnected = false) :
      DialGoes now c id .locking (.waiting .pacing) { c with gate := c.gate.join id }
  | dials {gate : Gate Nat} (hgate : c.gate.acquire? now id = some gate) :
      DialGoes now c id .pacing
        (.waiting (.dialling (now + c.gateway.behaviour.connectDelay)))
        { c with gate, gateway := c.gateway.beginConnect now }
  | connects {due : Nat} (hdue : due ≤ now)
      (hok : c.gateway.behaviour.connectFailure c.gateway.connects = none) :
      DialGoes now c id (.dialling due) (.done (.ok ()))
        ({ c with
          gateway := { c.gateway with
            connects := c.gateway.connects + 1
            isConnected := true } }.leaveDial id)
  | refused {due : Nat} {e : VenueError} (hdue : due ≤ now)
      (hfail : c.gateway.behaviour.connectFailure c.gateway.connects = some e) :
      DialGoes now c id (.dialling due) (.done (.error e))
        ({ c with
          gateway := { c.gateway with connects := c.gateway.connects + 1 } }.leaveDial id)

theorem goDial_cases {c c' : Connector} {now id : Nat} {d : Dial} {r : Dialled}
    (h : c.goDial now id d = some (r, c')) : DialGoes now c id d r c' := by
  cases d with
  | locking =>
    simp only [Connector.goDial] at h
    split at h
    · rename_i hheld
      split at h
      · rename_i hthere
        cases h
        exact .uses hheld hthere
      · rename_i hthere
        cases h
        exact .lacks hheld (by simpa using hthere)
    · cases h
  | pacing =>
    obtain ⟨gate, hgate, heq⟩ := Option.map_eq_some_iff.1 h
    cases heq
    exact .dials hgate
  | dialling due =>
    simp only [Connector.goDial] at h
    split at h
    · rename_i hdue
      cases hfail : c.gateway.behaviour.connectFailure c.gateway.connects with
      | none =>
        simp only [Gateway.finishConnect, hfail] at h
        cases h
        exact .connects hdue hfail
      | some e =>
        simp only [Gateway.finishConnect, hfail] at h
        cases h
        exact .refused hdue hfail
    · cases h

/-! ## What a stream does -/

/-- What a stream does when it goes on: the stream and the connector after it. -/
inductive StreamGoes (now : Nat) (c : Connector) (s : Stream) : Stream → Connector → Prop where
  | dials {d d' : Dial} {c₁ : Connector} {s' : Stream} (hst : s.stage = .connecting d)
      (hd : DialGoes now c s.id d (.waiting d') c₁)
      (hs' : s' = { s with stage := .connecting d' }) :
      StreamGoes now c s s' (c₁.setStream s')
  | connects {d : Dial} {c₁ : Connector} {s' : Stream} (hst : s.stage = .connecting d)
      (hd : DialGoes now c s.id d (.done (.ok ())) c₁)
      (hs' : s' = { s with stage := .pacing c₁.gateway.subscribe }) :
      StreamGoes now c s s' { c₁.setStream s' with gate := c₁.gate.join s.id }
  | refused {d : Dial} {e : VenueError} {c₁ : Connector} {s' : Stream}
      (hst : s.stage = .connecting d) (hd : DialGoes now c s.id d (.done (.error e)) c₁)
      (hs' : s' = { s with stage := .cancelling false }) :
      StreamGoes now c s s' { c₁.setStream s' with gate := c₁.gate.join s.id }
  | asks {events : Gateway.Subscription} {gate : Gate Nat} {s' : Stream}
      (hst : s.stage = .pacing events) (hgate : c.gate.acquire? now s.id = some gate)
      (hok : c.gateway.behaviour.marketFailure c.gateway.marketRequests = none)
      (hs' : s' = { s with stage := .reading events }) :
      StreamGoes now c s s'
        { c.setStream s' with
          gate
          gateway := { c.gateway.log now (.marketData s.contract) with
            marketRequests := c.gateway.marketRequests + 1 } }
  | denied {events : Gateway.Subscription} {gate : Gate Nat} {e : VenueError} {s' : Stream}
      (hst : s.stage = .pacing events) (hgate : c.gate.acquire? now s.id = some gate)
      (hfail : c.gateway.behaviour.marketFailure c.gateway.marketRequests = some e)
      (hs' : s' = { s with stage := .cancelling false }) :
      StreamGoes now c s s'
        { c.setStream s' with
          gate := gate.join s.id
          gateway := { c.gateway.log now (.marketData s.contract) with
            marketRequests := c.gateway.marketRequests + 1 } }
  | hears {events : Gateway.Subscription} {batch : List Ticker} {s' : Stream}
      (hst : s.stage = .reading events) (hh : c.gateway.hear events = .item batch)
      (hs' : s' = { s with
        stage := .sending (batch.filter fun t => t.contract.key = s.contract.key)
          { events with position := events.position + 1 } }) :
      StreamGoes now c s s' (c.setStream s')
  | lags {events : Gateway.Subscription} {position : Nat} {s' : Stream}
      (hst : s.stage = .reading events) (hh : c.gateway.hear events = .lagged position)
      (hs' : s' = { s with stage := .reading { events with position } }) :
      StreamGoes now c s s' (c.setStream s')
  | ends {events : Gateway.Subscription} {s' : Stream} (hst : s.stage = .reading events)
      (hh : c.gateway.hear events = .ended) (hs' : s' = { s with stage := .cancelling false }) :
      StreamGoes now c s s' { c.setStream s' with gate := c.gate.join s.id }
  | returns {events : Gateway.Subscription} {s' : Stream} (hst : s.stage = .sending [] events)
      (hs' : s' = { s with stage := .reading events }) :
      StreamGoes now c s s' (c.setStream s')
  | sends {ticker : Ticker} {rest : List Ticker} {events : Gateway.Subscription} {s' : Stream}
      (hst : s.stage = .sending (ticker :: rest) events) (hopen : s.queue.closed = false)
      (hroom : s.queue.items.length < s.queue.capacity)
      (hs' : s' = { s with
        queue := { s.queue with items := s.queue.items ++ [ticker] }
        stage := .sending rest events }) :
      StreamGoes now c s s' (c.setStream s')
  | cancels {gate : Gate Nat} {s' : Stream} (hst : s.stage = .cancelling true)
      (hgate : c.gate.acquire? now s.id = some gate)
      (hs' : s' = { s with stage := .ended, queue := s.queue.finish }) :
      StreamGoes now c s s'
        { c.setStream s' with
          gate
          gateway := c.gateway.cancelMarketData now s.contract }
  | retries {gate : Gate Nat} {s' : Stream} (hst : s.stage = .cancelling false)
      (hgate : c.gate.acquire? now s.id = some gate)
      (hs' : s' = { s with stage := .pausing (now + c.reconnectDelay) }) :
      StreamGoes now c s s'
        { c.setStream s' with
          gate
          gateway := (c.gateway.cancelMarketData now s.contract).disconnect now }
  | resumes {due : Nat} {s' : Stream} (hst : s.stage = .pausing due) (hdue : due ≤ now)
      (hs' : s' = { s with stage := .connecting .locking }) :
      StreamGoes now c s s' { c.setStream s' with dialLock := c.dialLock.join s.id }

theorem askMarketData_cases {c : Connector} {now : Nat} {s : Stream} {gate : Gate Nat}
    {events : Gateway.Subscription} (hst : s.stage = .pacing events)
    (hgate : c.gate.acquire? now s.id = some gate) :
    ∃ s', StreamGoes now c s s' ({ c with gate }.askMarketData now s events) := by
  cases hfail : c.gateway.behaviour.marketFailure c.gateway.marketRequests with
  | none =>
    have hask : ({ c with gate } : Connector).askMarketData now s events =
        { c.setStream { s with stage := .reading events } with
          gate
          gateway := { c.gateway.log now (.marketData s.contract) with
            marketRequests := c.gateway.marketRequests + 1 } } := by
      simp only [Connector.askMarketData, Gateway.requestMarketData, hfail]
      rfl
    rw [hask]
    exact ⟨_, .asks hst hgate hfail rfl⟩
  | some e =>
    have hask : ({ c with gate } : Connector).askMarketData now s events =
        { c.setStream { s with stage := .cancelling false } with
          gate := gate.join s.id
          gateway := { c.gateway.log now (.marketData s.contract) with
            marketRequests := c.gateway.marketRequests + 1 } } := by
      simp only [Connector.askMarketData, Gateway.requestMarketData, hfail]
      rfl
    rw [hask]
    exact ⟨_, .denied hst hgate hfail rfl⟩

theorem readEvent_cases {c c' : Connector} {now : Nat} {s : Stream}
    {events : Gateway.Subscription} (hst : s.stage = .reading events)
    (h : c.readEvent s events = some c') : ∃ s', StreamGoes now c s s' c' := by
  unfold Connector.readEvent at h
  split at h
  · rename_i hh
    cases h
    exact ⟨_, .hears hst hh rfl⟩
  · rename_i hh
    cases h
    exact ⟨_, .lags hst hh rfl⟩
  · rename_i hh
    cases h
    exact ⟨_, .ends hst hh rfl⟩
  · cases h

theorem goOn_cases {c c' : Connector} {now : Nat} {s : Stream} (h : c.goOn now s = some c') :
    ∃ s', StreamGoes now c s s' c' := by
  unfold Connector.goOn at h
  split at h
  · rename_i d hst
    obtain ⟨⟨r, c₁⟩, hd, rfl⟩ := Option.map_eq_some_iff.1 h
    have hd := goDial_cases hd
    cases r with
    | waiting d' => exact ⟨_, .dials hst hd rfl⟩
    | done result =>
      cases result with
      | ok u => exact ⟨_, .connects hst hd rfl⟩
      | error e => exact ⟨_, .refused hst hd rfl⟩
  · rename_i hst
    obtain ⟨gate, hgate, rfl⟩ := Option.map_eq_some_iff.1 h
    exact askMarketData_cases hst hgate
  · rename_i hst
    exact readEvent_cases hst h
  · rename_i hst
    cases h
    exact ⟨_, .returns hst rfl⟩
  · rename_i hst
    split at h
    · cases h
    · rename_i hopen
      obtain ⟨queue, hqueue, rfl⟩ := Option.map_eq_some_iff.1 h
      unfold Channel.send? at hqueue
      split at hqueue
      · rename_i hroom
        cases hqueue
        exact ⟨_, .sends hst (by simpa using hopen) hroom rfl⟩
      · cases hqueue
  · rename_i gone hst
    obtain ⟨gate, hgate, rfl⟩ := Option.map_eq_some_iff.1 h
    cases gone with
    | true => exact ⟨_, .cancels hst hgate rfl⟩
    | false => exact ⟨_, .retries hst hgate rfl⟩
  · rename_i hst
    split at h
    · rename_i hdue
      cases h
      exact ⟨_, .resumes hst hdue rfl⟩
    · cases h
  · cases h

/-- What a stream does when it learns that its consumer has gone. -/
inductive Notices (c : Connector) (s : Stream) : Stream → Connector → Prop where
  | reading {events : Gateway.Subscription} {s' : Stream} (hst : s.stage = .reading events)
      (hclosed : s.queue.closed = true) (hs' : s' = { s with stage := .cancelling true }) :
      Notices c s s' { c.setStream s' with gate := c.gate.join s.id }
  | sending {ticker : Ticker} {rest : List Ticker} {events : Gateway.Subscription} {s' : Stream}
      (hst : s.stage = .sending (ticker :: rest) events) (hclosed : s.queue.closed = true)
      (hs' : s' = { s with stage := .cancelling true }) :
      Notices c s s' { c.setStream s' with gate := c.gate.join s.id }
  | pausing {due : Nat} {s' : Stream} (hst : s.stage = .pausing due)
      (hclosed : s.queue.closed = true)
      (hs' : s' = { s with stage := .ended, queue := s.queue.finish }) :
      Notices c s s' (c.setStream s')

theorem notice_cases {c c' : Connector} {s : Stream} (h : c.notice s = some c') :
    ∃ s', Notices c s s' c' := by
  unfold Connector.notice at h
  split at h
  · rename_i hclosed
    split at h
    · rename_i hst
      cases h
      exact ⟨_, .reading hst hclosed rfl⟩
    · rename_i hst
      cases h
      exact ⟨_, .sending hst hclosed rfl⟩
    · rename_i hst
      cases h
      exact ⟨_, .pausing hst hclosed rfl⟩
    · cases h
  · cases h

/-! ## What a call does -/

/-- What a call does when it goes on: the call and the connector after it. -/
inductive CallGoes (now : Nat) (c : Connector) (k : Call) : Call → Connector → Prop where
  | dials {d d' : Dial} {c₁ : Connector} {k' : Call} (hst : k.stage = .connecting d)
      (hd : DialGoes now c k.id d (.waiting d') c₁)
      (hk' : k' = { k with stage := .connecting d' }) :
      CallGoes now c k k' (c₁.setCall k')
  | connects {d : Dial} {c₁ : Connector} {k' : Call} (hst : k.stage = .connecting d)
      (hd : DialGoes now c k.id d (.done (.ok ())) c₁) (htask : k.task = .connect)
      (hk' : k' = { k with stage := .finished (.ok []) }) :
      CallGoes now c k k' (c₁.setCall k')
  | queues {d : Dial} {c₁ : Connector} {contract : Contract} {request : HistoryRequest}
      {k' : Call} (hst : k.stage = .connecting d)
      (hd : DialGoes now c k.id d (.done (.ok ())) c₁) (htask : k.task = .fetch contract request)
      (hk' : k' = { k with stage := .pacing }) :
      CallGoes now c k k' { c₁.setCall k' with gate := c₁.gate.join k.id }
  | refused {d : Dial} {e : VenueError} {c₁ : Connector} {k' : Call}
      (hst : k.stage = .connecting d) (hd : DialGoes now c k.id d (.done (.error e)) c₁)
      (hk' : k' = { k with stage := .finished (.error e) }) :
      CallGoes now c k k' (c₁.setCall k')
  | asks {gate : Gate Nat} {contract : Contract} {request : HistoryRequest} {k' : Call}
      (hst : k.stage = .pacing) (hgate : c.gate.acquire? now k.id = some gate)
      (htask : k.task = .fetch contract request)
      (hk' : k' = { k with
        stage := .finished ((c.gateway.requestHistory now contract
          (c.historicalRequest now request)).1.map (Connector.lastBars request.limit)) }) :
      CallGoes now c k k'
        { c.setCall k' with
          gate
          gateway :=
            (c.gateway.requestHistory now contract (c.historicalRequest now request)).2 }
  /-- A call that is only to connect does not come to this. -/
  | idles {gate : Gate Nat} (hst : k.stage = .pacing)
      (hgate : c.gate.acquire? now k.id = some gate) (htask : k.task = .connect) :
      CallGoes now c k k { c with gate }

theorem goCall_cases {c c' : Connector} {now : Nat} {k : Call} (h : c.goCall now k = some c') :
    ∃ k', CallGoes now c k k' c' := by
  obtain ⟨id, task, stage⟩ := k
  unfold Connector.goCall at h
  split at h
  · rename_i d hst
    obtain ⟨⟨r, c₁⟩, hd, rfl⟩ := Option.map_eq_some_iff.1 h
    have hd := goDial_cases hd
    cases r with
    | waiting d' => exact ⟨_, .dials hst hd rfl⟩
    | done result =>
      cases result with
      | ok u =>
        cases task with
        | connect => exact ⟨_, .connects hst hd rfl rfl⟩
        | fetch contract request => exact ⟨_, .queues hst hd rfl rfl⟩
      | error e => exact ⟨_, .refused hst hd rfl⟩
  · rename_i hst
    obtain ⟨gate, hgate, rfl⟩ := Option.map_eq_some_iff.1 h
    cases task with
    | connect => exact ⟨_, .idles hst hgate rfl⟩
    | fetch contract request => exact ⟨_, .asks hst hgate rfl rfl⟩
  · cases h

/-! ## What stays -/

section Frames

variable {c c' : Connector} {now id : Nat} {s s' : Stream} {k k' : Call}

/-- To be connected changes neither the tasks nor the bounds. -/
theorem DialGoes.frame {d : Dial} {r : Dialled} (h : DialGoes now c id d r c') :
    c'.streams = c.streams ∧ c'.calls = c.calls ∧ c'.nextId = c.nextId ∧
      c'.config = c.config := by
  cases h <;> exact ⟨rfl, rfl, rfl, rfl⟩

/-- What goes on in a stream changes no calls and no bounds, and of the streams only itself. -/
theorem StreamGoes.frame (h : StreamGoes now c s s' c') :
    s'.id = s.id ∧ s'.contract = s.contract ∧ c'.streams = (c.setStream s').streams ∧
      c'.calls = c.calls ∧ c'.nextId = c.nextId ∧ c'.config = c.config := by
  cases h with
  | dials hst hd hs' | connects hst hd hs' | refused hst hd hs' =>
    obtain ⟨hstreams, hcalls, hnext, hconfig⟩ := hd.frame
    subst hs'
    refine ⟨rfl, rfl, ?_, hcalls, hnext, hconfig⟩
    simp only [Connector.setStream, hstreams]
  | _ => subst_vars; exact ⟨rfl, rfl, rfl, rfl, rfl, rfl⟩

theorem Notices.frame (h : Notices c s s' c') :
    s'.id = s.id ∧ s'.contract = s.contract ∧ c'.streams = (c.setStream s').streams ∧
      c'.calls = c.calls ∧ c'.nextId = c.nextId ∧ c'.config = c.config := by
  cases h <;> subst_vars <;> exact ⟨rfl, rfl, rfl, rfl, rfl, rfl⟩

/-- What goes on in a call changes no streams and no bounds. -/
theorem CallGoes.frame (h : CallGoes now c k k' c') :
    k'.id = k.id ∧ k'.task = k.task ∧ c'.streams = c.streams ∧ c'.nextId = c.nextId ∧
      c'.config = c.config := by
  cases h with
  | dials hst hd hk' | connects hst hd htask hk' | queues hst hd htask hk' | refused hst hd hk' =>
    obtain ⟨hstreams, -, hnext, hconfig⟩ := hd.frame
    subst hk'
    exact ⟨rfl, rfl, hstreams, hnext, hconfig⟩
  | _ => subst_vars; exact ⟨rfl, rfl, rfl, rfl, rfl⟩

theorem StreamGoes.stream? (h : StreamGoes now c s s' c') (hs : c.stream? s.id = some s) :
    c'.stream? s.id = some s' := by
  obtain ⟨hid, -, hstreams, -⟩ := h.frame
  rw [← hid] at hs
  rw [Connector.stream?, hstreams, ← hid]
  exact stream?_setStream_self hs

theorem StreamGoes.stream?_of_ne (h : StreamGoes now c s s' c') (hne : s.id ≠ id) :
    c'.stream? id = c.stream? id := by
  obtain ⟨hid, -, hstreams, -⟩ := h.frame
  rw [Connector.stream?, hstreams]
  exact stream?_setStream_of_ne (hid ▸ hne)

theorem Notices.stream? (h : Notices c s s' c') (hs : c.stream? s.id = some s) :
    c'.stream? s.id = some s' := by
  obtain ⟨hid, -, hstreams, -⟩ := h.frame
  rw [← hid] at hs
  rw [Connector.stream?, hstreams, ← hid]
  exact stream?_setStream_self hs

theorem Notices.stream?_of_ne (h : Notices c s s' c') (hne : s.id ≠ id) :
    c'.stream? id = c.stream? id := by
  obtain ⟨hid, -, hstreams, -⟩ := h.frame
  rw [Connector.stream?, hstreams]
  exact stream?_setStream_of_ne (hid ▸ hne)

theorem CallGoes.calls (h : CallGoes now c k k' c') :
    c'.calls = (c.setCall k').calls ∨ k' = k ∧ c'.calls = c.calls := by
  cases h with
  | dials hst hd hk' | connects hst hd htask hk' | queues hst hd htask hk' | refused hst hd hk' =>
    subst hk'
    refine .inl ?_
    simp only [Connector.setCall, hd.frame.2.1]
  | asks hst hgate htask hk' => subst hk'; exact .inl rfl
  | idles hst hgate htask => exact .inr ⟨rfl, rfl⟩

theorem CallGoes.call? (h : CallGoes now c k k' c') (hk : c.call? k.id = some k) :
    c'.call? k.id = some k' := by
  rcases h.calls with hcalls | ⟨rfl, hcalls⟩
  · have hid := h.frame.1
    rw [← hid] at hk
    rw [Connector.call?, hcalls, ← hid]
    exact call?_setCall_self hk
  · rw [Connector.call?, hcalls]
    exact hk

theorem CallGoes.call?_of_ne (h : CallGoes now c k k' c') (hne : k.id ≠ id) :
    c'.call? id = c.call? id := by
  rcases h.calls with hcalls | ⟨rfl, hcalls⟩
  · rw [Connector.call?, hcalls]
    exact call?_setCall_of_ne (h.frame.1 ▸ hne)
  · rw [Connector.call?, hcalls]
    rfl

end Frames

/-! ## What an event does -/

/-- All that can happen, and what comes of it. -/
inductive Happening (t : Timed Connector) : Event → Timed Connector → Prop where
  | goes {s s' : Stream} {c' : Connector} (hs : t.world.stream? s.id = some s)
      (hg : StreamGoes t.now t.world s s' c') : Happening t (.move (.stream s.id)) ⟨t.now, c'⟩
  | notices {s s' : Stream} {c' : Connector} (hs : t.world.stream? s.id = some s)
      (hn : Notices t.world s s' c') : Happening t (.move (.notice s.id)) ⟨t.now, c'⟩
  | calls {k k' : Call} {c' : Connector} (hk : t.world.call? k.id = some k)
      (hg : CallGoes t.now t.world k k' c') : Happening t (.move (.call k.id)) ⟨t.now, c'⟩
  | starts (task : Task) : Happening t (.call task) ⟨t.now, (t.world.call task).2⟩
  | forgets {k : Call} (hk : t.world.call? k.id = some k) :
      Happening t (.forget k.id) ⟨t.now, t.world.forget k.id⟩
  | begins (contract : Contract) :
      Happening t (.openStream contract) ⟨t.now, (t.world.openStream contract).2⟩
  | receives {s : Stream} (hs : t.world.stream? s.id = some s) :
      Happening t (.receive s.id) ⟨t.now, t.world.setStream { s with queue := s.queue.receive.2 }⟩
  | drops {s : Stream} (hs : t.world.stream? s.id = some s) :
      Happening t (.drop s.id) ⟨t.now, t.world.setStream { s with queue := s.queue.close }⟩
  /-- There is no such stream. -/
  | misses {id : Nat} {e : Event} (hs : t.world.stream? id = none)
      (he : e = .receive id ∨ e = .drop id) : Happening t e t
  | changes {g : Gateway} (hcalls : g.calls = t.world.gateway.calls) :
      Happening t (.change g) ⟨t.now, { t.world with gateway := g }⟩
  | waits {time : Nat} (hle : t.now ≤ time) : Happening t (.wait time) ⟨time, t.world⟩

section Events

variable {t t' : Timed Connector} {e : Event} {c' : Connector} {s : Stream}

theorem happening_of_step {m : Connector.Move} (h : Connector.step t.now m t.world = some c') :
    Happening t (.move m) ⟨t.now, c'⟩ := by
  cases m with
  | call i =>
    obtain ⟨k, hk, hgo⟩ := Option.bind_eq_some_iff.1 h
    obtain ⟨k', hg⟩ := goCall_cases hgo
    have hid := id_of_call? hk
    subst hid
    exact .calls hk hg
  | notice i =>
    obtain ⟨s, hs, hgo⟩ := Option.bind_eq_some_iff.1 h
    obtain ⟨s', hn⟩ := notice_cases hgo
    have hid := id_of_stream? hs
    subst hid
    exact .notices hs hn
  | stream i =>
    obtain ⟨s, hs, hgo⟩ := Option.bind_eq_some_iff.1 h
    obtain ⟨s', hg⟩ := goOn_cases hgo
    have hid := id_of_stream? hs
    subst hid
    exact .goes hs hg

theorem happening_of_happens (h : happens e t = some t') : Happening t e t' := by
  cases e with
  | move m =>
    obtain ⟨c, hc, rfl⟩ := Option.map_eq_some_iff.1 h
    exact happening_of_step hc
  | call task => cases h; exact .starts task
  | forget i =>
    obtain ⟨k, hk, rfl⟩ := Option.map_eq_some_iff.1 h
    have hid := id_of_call? hk
    subst hid
    exact .forgets hk
  | openStream contract => cases h; exact .begins contract
  | receive i =>
    cases h
    cases hs : t.world.stream? i with
    | none =>
      have hsame : t.update (fun c => (c.receive i).2) = t := by
        simp only [Timed.update, Connector.receive, hs]
      rw [hsame]
      exact .misses hs (.inl rfl)
    | some s =>
      have hid := id_of_stream? hs
      subst hid
      have hset : t.update (fun c => (c.receive s.id).2) =
          ⟨t.now, t.world.setStream { s with queue := s.queue.receive.2 }⟩ := by
        simp only [Timed.update, Connector.receive, hs]
      rw [hset]
      exact .receives hs
  | drop i =>
    cases h
    cases hs : t.world.stream? i with
    | none =>
      have hsame : t.update (fun c => c.dropStream i) = t := by
        simp only [Timed.update, Connector.dropStream, hs]
      rw [hsame]
      exact .misses hs (.inr rfl)
    | some s =>
      have hid := id_of_stream? hs
      subst hid
      have hset : t.update (fun c => c.dropStream s.id) =
          ⟨t.now, t.world.setStream { s with queue := s.queue.close }⟩ := by
        simp only [Timed.update, Connector.dropStream, hs]
      rw [hset]
      exact .drops hs
  | change g =>
    simp only [happens] at h
    split at h
    · rename_i hcalls
      cases h
      exact .changes hcalls
    · cases h
  | wait time =>
    simp only [happens] at h
    split at h
    · rename_i hle
      cases h
      exact .waits hle
    · cases h

theorem now_le_of_happens (h : happens e t = some t') : t.now ≤ t'.now := by
  cases happening_of_happens h with
  | waits hle => exact hle
  | _ => exact Nat.le_refl _

/-! ## What an event does to one stream -/

/-- What an event does to the stream of some number. -/
inductive Fares (id : Nat) (t : Timed Connector) (e : Event) (t' : Timed Connector) : Prop where
  | goes {s s' : Stream} (hs : t.world.stream? id = some s) (he : e = .move (.stream id))
      (hg : StreamGoes t.now t.world s s' t'.world) (hs' : t'.world.stream? id = some s')
  | notices {s s' : Stream} (hs : t.world.stream? id = some s) (he : e = .move (.notice id))
      (hn : Notices t.world s s' t'.world) (hs' : t'.world.stream? id = some s')
  /-- Its consumer takes a ticker, or goes. -/
  | serves {s : Stream} {queue : Channel Ticker} (hs : t.world.stream? id = some s)
      (he : e ≠ .move (.stream id)) (hclosed : s.queue.closed = true → queue.closed = true)
      (hs' : t'.world.stream? id = some { s with queue })
  | begins {contract : Contract} (hs : t.world.stream? id = none) (he : e = .openStream contract)
      (hs' : t'.world.stream? id =
        some ⟨id, contract, .new t.world.queueCapacity, .connecting .locking⟩)
  | stays (hs : t'.world.stream? id = t.world.stream? id) (he : e ≠ .move (.stream id))

theorem stream?_openStream (c : Connector) (contract : Contract) (id : Nat) :
    (c.openStream contract).2.stream? id = (c.stream? id).or
      (if c.nextId = id then
        some ⟨c.nextId, contract, .new c.queueCapacity, .connecting .locking⟩ else none) := by
  simp only [Connector.openStream, Connector.stream?, List.find?_append, List.find?_singleton,
    decide_eq_true_eq]

theorem receive_closed (q : Channel Ticker) : q.receive.2.closed = q.closed := by
  unfold Channel.receive
  split <;> rfl

theorem fares_of_happens (h : happens e t = some t') (id : Nat) : Fares id t e t' := by
  cases happening_of_happens h with
  | @goes s s' c' hs hg =>
    by_cases hid : s.id = id
    · subst hid
      exact .goes hs rfl hg (hg.stream? hs)
    · exact .stays (hg.stream?_of_ne hid) (by simpa using hid)
  | @notices s s' c' hs hn =>
    by_cases hid : s.id = id
    · subst hid
      exact .notices hs rfl hn (hn.stream? hs)
    · exact .stays (hn.stream?_of_ne hid) (by simp)
  | calls hk hg =>
    refine .stays ?_ (by simp)
    simp only [Connector.stream?, hg.frame.2.2.1]
  | begins contract =>
    have hs := stream?_openStream t.world contract id
    cases hold : t.world.stream? id with
    | some s =>
      rw [hold, Option.some_or] at hs
      exact .stays (hs.trans hold.symm) (by simp)
    | none =>
      rw [hold, Option.none_or] at hs
      split at hs
      · rename_i hid
        subst hid
        exact .begins hold rfl hs
      · exact .stays (hs.trans hold.symm) (by simp)
  | @receives s hs =>
    by_cases hid : s.id = id
    · subst hid
      refine .serves hs (by simp) (fun hclosed => (receive_closed _).trans hclosed) ?_
      exact stream?_setStream_self (s := { s with queue := s.queue.receive.2 }) hs
    · refine .stays ?_ (by simp)
      exact stream?_setStream_of_ne (s := { s with queue := _ }) hid
  | @drops s hs =>
    by_cases hid : s.id = id
    · subst hid
      have hs' := stream?_setStream_self (s := { s with queue := s.queue.close }) hs
      refine .serves hs (by simp) ?_ hs'
      exact fun _ => rfl
    · refine .stays ?_ (by simp)
      exact stream?_setStream_of_ne (s := { s with queue := _ }) hid
  | misses hs he => exact .stays rfl (by rcases he with rfl | rfl <;> simp)
  | _ => exact .stays rfl (by simp)

end Events

end Ibkr
end MarketFeed
