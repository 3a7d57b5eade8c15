import MarketFeed.Proofs.Ibkr.Steps
import Mathlib.Data.List.Chain

/-!
# MarketFeed.Proofs.Ibkr.Sessions

The sessions of a stream: what it does at the gateway, in what order.

* `deeds` — what a stream does in a history. `Logged` — its calls are those that the gateway logs.
* `Session`, `Retried`, `Lifecycle` — sessions one after another, each cancelled once, and all but
  the last followed by a disconnect.
* `Trail`, `trails_of_history` — every stream of every history keeps to this.
* `Lifecycle.granted` — what comes after a request for market data that was granted: its cancelling.
* `left_of_history` — a session that ends because the consumer has gone is the last one.
-/

namespace MarketFeed
namespace Ibkr

/-! ## What is seen of a stream -/

/-- What a stream does at the gateway, and what it is told there. -/
inductive Deed where
  /-- It looks for a connection. -/
  | finds (connected : Bool)
  | calls (call : GatewayCall)
  /-- The end of connecting. -/
  | connected (ok : Bool)
  /-- The answer to the request for market data. -/
  | answered (ok : Bool)
  deriving DecidableEq, Repr

def Deed.call? : Deed → Option GatewayCall
  | .calls call => some call
  | _ => none

/-- What a stream does when it goes on. -/
def deedsOf (c : Connector) (s : Stream) : List Deed :=
  match s.stage with
  | .connecting .locking => [.finds c.gateway.isConnected]
  | .connecting .pacing => [.calls .connect]
  | .connecting (.dialling _) =>
    [.connected (c.gateway.behaviour.connectFailure c.gateway.connects).isNone]
  | .pacing _ =>
    [.calls (.marketData s.contract),
      .answered (c.gateway.behaviour.marketFailure c.gateway.marketRequests).isNone]
  | .cancelling true => [.calls (.cancel s.contract)]
  | .cancelling false => [.calls (.cancel s.contract), .calls .disconnect]
  | _ => []

/-- What the stream of a number does in an incident. -/
def deedsAt (id : Nat) (x : Incident (Timed Connector) Event) : List Deed :=
  match x.event with
  | .move (.stream i) =>
    if i = id then ((x.before.world.stream? id).map (deedsOf x.before.world)).getD [] else []
  | _ => []

def deeds (id : Nat) (h : List (Incident (Timed Connector) Event)) : List Deed :=
  h.flatMap (deedsAt id)

section Seen

variable {id : Nat} {t t' : Timed Connector} {e : Event} {s : Stream}

theorem deeds_concat (h : List (Incident (Timed Connector) Event))
    (x : Incident (Timed Connector) Event) : deeds id (h ++ [x]) = deeds id h ++ deedsAt id x :=
  flatMap_concat h x _

theorem deedsAt_of_ne (he : e ≠ .move (.stream id)) : deedsAt id ⟨t, e, t'⟩ = [] := by
  unfold deedsAt
  split
  · rename_i i hi
    refine if_neg ?_
    rintro rfl
    exact he hi
  · rfl

theorem deedsAt_stream (hs : t.world.stream? id = some s) :
    deedsAt id ⟨t, .move (.stream id), t'⟩ = deedsOf t.world s := by
  simp only [deedsAt, if_true, hs, Option.map_some, Option.getD_some]

theorem deedsAt_of_absent (hs : t.world.stream? id = none) : deedsAt id ⟨t, e, t'⟩ = [] := by
  unfold deedsAt
  split
  · split
    · rw [hs]
      rfl
    · rfl
  · rfl

end Seen

/-! ## What the gateway logs -/

/-- What the gateway logs in an incident: the calls of the stream that goes on, or those of a call
that goes on, which is never about market data. -/
def Logged (x : Incident (Timed Connector) Event) : Prop :=
  ∃ new : List GatewayCall,
    x.after.world.gateway.calls = x.before.world.gateway.calls ++ new.map (x.before.now, ·) ∧
    ((∃ id, x.event = .move (.stream id) ∧ new = (deedsAt id x).filterMap Deed.call?) ∨
      (∃ id, x.event = .move (.call id)) ∧
        (∀ call ∈ new, call = .connect ∨ ∃ contract request, call = .history contract request) ∨
      new = [])

section Logs

variable {c c' : Connector} {now id : Nat} {t t' : Timed Connector} {e : Event}

/-- The call of a caller that goes on being connected. -/
def dialCalls : Dial → List GatewayCall
  | .pacing => [.connect]
  | _ => []

theorem eq_connect_of_mem {d : Dial} {call : GatewayCall} (h : call ∈ dialCalls d) :
    d = .pacing ∧ call = .connect := by
  cases d with
  | pacing => exact ⟨rfl, List.mem_singleton.1 h⟩
  | _ => cases h

theorem DialGoes.log {d : Dial} {r : Connector.Dialled} (h : DialGoes now c id d r c') :
    c'.gateway.calls = c.gateway.calls ++ (dialCalls d).map (now, ·) := by
  cases h with
  | dials hgate => rfl
  | _ => exact (List.append_nil _).symm

theorem deedsOf_connecting {s : Stream} {d : Dial} (hst : s.stage = .connecting d) :
    (deedsOf c s).filterMap Deed.call? = dialCalls d := by
  rw [deedsOf, hst]
  cases d <;> rfl

theorem StreamGoes.log {s s' : Stream} (h : StreamGoes now c s s' c') :
    c'.gateway.calls =
      c.gateway.calls ++ ((deedsOf c s).filterMap Deed.call?).map (now, ·) := by
  cases h with
  | dials hst hd | connects hst hd | refused hst hd =>
    rw [deedsOf_connecting hst]
    exact hd.log
  | asks hst | denied hst | cancels hst =>
    rw [deedsOf, hst]
    rfl
  | retries hst =>
    rw [deedsOf, hst]
    exact List.append_assoc _ _ _
  | hears hst | lags hst | ends hst | returns hst | sends hst | resumes hst =>
    rw [deedsOf, hst]
    exact (List.append_nil _).symm

theorem CallGoes.log {k k' : Call} (h : CallGoes now c k k' c') : ∃ new : List GatewayCall,
    c'.gateway.calls = c.gateway.calls ++ new.map (now, ·) ∧
      ∀ call ∈ new, k.stage = .connecting .pacing ∧ call = .connect ∨
        ∃ contract request, call = .history contract request := by
  cases h with
  | dials hst hd | connects hst hd | queues hst hd | refused hst hd =>
    refine ⟨_, hd.log, fun call hcall => .inl ?_⟩
    obtain ⟨rfl, hconnect⟩ := eq_connect_of_mem hcall
    exact ⟨hst, hconnect⟩
  | asks hst hgate htask hk' => exact ⟨[.history _ _], rfl, by simp⟩
  | idles hst hgate htask => exact ⟨[], (List.append_nil _).symm, by simp⟩

theorem logged_of_happens (he : happens e t = some t') : Logged ⟨t, e, t'⟩ := by
  have hnothing {t' : Timed Connector} (h : t'.world.gateway.calls = t.world.gateway.calls) :
      Logged ⟨t, e, t'⟩ := ⟨[], h.trans (List.append_nil _).symm, .inr (.inr rfl)⟩
  cases happening_of_happens he with
  | goes hs hg =>
    refine ⟨_, ?_, .inl ⟨_, rfl, rfl⟩⟩
    rw [deedsAt_stream hs]
    exact hg.log
  | calls hk hg =>
    obtain ⟨new, hcalls, hnew⟩ := hg.log
    exact ⟨new, hcalls,
      .inr (.inl ⟨⟨_, rfl⟩, fun call hcall => (hnew call hcall).imp_left And.right⟩)⟩
  | notices hs hn => exact hnothing (by cases hn <;> rfl)
  | changes hcalls => exact hnothing hcalls
  | _ => exact hnothing rfl

end Logs

/-! ## Sessions -/

/-- How a stream is connected, or is not: it looks for a connection, and makes one if there is
none. -/
inductive Connecting : Bool → List Deed → Prop where
  | there : Connecting true [.finds true]
  | dialled (ok : Bool) : Connecting ok [.finds false, .calls .connect, .connected ok]

/-- A session up to its cancelling. It may end because the consumer has gone only while events are
read. -/
inductive Session (contract : Contract) : Bool → List Deed → Prop where
  | unconnected {ds : List Deed} (h : Connecting false ds) :
      Session contract false (ds ++ [Deed.calls (.cancel contract)])
  | denied {ds : List Deed} (h : Connecting true ds) :
      Session contract false
        (ds ++ [Deed.calls (.marketData contract), .answered false] ++
          [Deed.calls (.cancel contract)])
  | served {ds : List Deed} (gone : Bool) (h : Connecting true ds) :
      Session contract gone
        (ds ++ [Deed.calls (.marketData contract), .answered true] ++
          [Deed.calls (.cancel contract)])

/-- Sessions after which there was another attempt, each with its disconnect. -/
inductive Retried (contract : Contract) : List Deed → Prop where
  | nil : Retried contract []
  | snoc {ds session : List Deed} (h : Retried contract ds)
      (hs : Session contract false session) :
      Retried contract (ds ++ (session ++ [Deed.calls .disconnect]))

/-- What a stream has done in its last session, by its stage. -/
inductive Within (contract : Contract) : Stage → List Deed → Prop where
  | locking : Within contract (.connecting .locking) []
  | pacing : Within contract (.connecting .pacing) [.finds false]
  | dialling {due : Nat} :
      Within contract (.connecting (.dialling due)) [.finds false, .calls .connect]
  | connected {events : Gateway.Subscription} {ds : List Deed} (h : Connecting true ds) :
      Within contract (.pacing events) ds
  | reading {events : Gateway.Subscription} {ds : List Deed} (h : Connecting true ds) :
      Within contract (.reading events)
        (ds ++ [Deed.calls (.marketData contract), .answered true])
  | sending {tickers : List Ticker} {events : Gateway.Subscription} {ds : List Deed}
      (h : Connecting true ds) :
      Within contract (.sending tickers events)
        (ds ++ [Deed.calls (.marketData contract), .answered true])
  /-- Only the cancelling is still to come. -/
  | cancelling {gone : Bool} {ds : List Deed}
      (h : Session contract gone (ds ++ [Deed.calls (.cancel contract)])) :
      Within contract (.cancelling gone) ds
  | pausing {due : Nat} : Within contract (.pausing due) []
  /-- The consumer went between two sessions. -/
  | ended : Within contract .ended []
  | left {ds : List Deed} (h : Session contract true ds) : Within contract .ended ds

/-! ### Being connected -/

section Dials

variable {contract : Contract} {c c' : Connector} {now id : Nat} {s : Stream} {d d' : Dial}
  {ds : List Deed}

theorem Within.dials (h : Within contract (.connecting d) ds) (hst : s.stage = .connecting d)
    (hd : DialGoes now c id d (.waiting d') c') :
    Within contract (.connecting d') (ds ++ deedsOf c s) := by
  rw [deedsOf, hst]
  cases hd with
  | lacks hheld hthere =>
    cases h
    exact hthere ▸ .pacing
  | dials hgate =>
    cases h
    exact .dialling

theorem Within.connects (h : Within contract (.connecting d) ds) (hst : s.stage = .connecting d)
    (hd : DialGoes now c id d (.done (.ok ())) c') : Connecting true (ds ++ deedsOf c s) := by
  rw [deedsOf, hst]
  cases hd with
  | uses hheld hthere =>
    cases h
    exact hthere ▸ .there
  | connects hdue hok =>
    cases h
    exact hok ▸ .dialled true

theorem Within.refused {e : VenueError} (h : Within contract (.connecting d) ds)
    (hst : s.stage = .connecting d) (hd : DialGoes now c id d (.done (.error e)) c') :
    Connecting false (ds ++ deedsOf c s) := by
  rw [deedsOf, hst]
  cases hd with
  | refused hdue hfail =>
    cases h
    exact hfail ▸ .dialled false

end Dials

/-- All that a stream has done: sessions that were retried, and the last session. -/
inductive Lifecycle (contract : Contract) (stage : Stage) : List Deed → Prop where
  | mk {past last : List Deed} (hpast : Retried contract past)
      (hlast : Within contract stage last) : Lifecycle contract stage (past ++ last)

namespace Lifecycle

variable {c c' : Connector} {now : Nat} {s s' : Stream} {ds : List Deed}

/-- The last session goes on. -/
theorem within {contract : Contract} {past last new : List Deed} {stage : Stage}
    (hpast : Retried contract past) (h : Within contract stage (last ++ new)) :
    Lifecycle contract stage (past ++ last ++ new) :=
  List.append_assoc past last new ▸ .mk hpast h

/-- Nothing is done. -/
theorem idle {contract : Contract} {past last : List Deed} {stage : Stage}
    (hpast : Retried contract past) (h : Within contract stage last) :
    Lifecycle contract stage (past ++ last ++ []) :=
  (List.append_nil _).symm ▸ .mk hpast h

/-- Another session begins. -/
theorem again {contract : Contract} {past last : List Deed} {stage : Stage}
    (hpast : Retried contract past)
    (hs : Session contract false (last ++ [Deed.calls (.cancel contract)]))
    (h : Within contract stage []) :
    Lifecycle contract stage
      (past ++ last ++ [Deed.calls (.cancel contract), .calls .disconnect]) := by
  have hall := mk (hpast.snoc hs) h
  simpa only [List.append_nil, List.append_assoc, List.singleton_append] using hall

theorem goes (h : Lifecycle s.contract s.stage ds) (hg : StreamGoes now c s s' c') :
    Lifecycle s'.contract s'.stage (ds ++ deedsOf c s) := by
  obtain ⟨hpast, hlast⟩ := h
  cases hg with
  | dials hst hd hs' =>
    subst hs'
    rw [hst] at hlast
    exact within hpast (hlast.dials hst hd)
  | connects hst hd hs' =>
    subst hs'
    rw [hst] at hlast
    exact within hpast (.connected (hlast.connects hst hd))
  | refused hst hd hs' =>
    subst hs'
    rw [hst] at hlast
    exact within hpast (.cancelling (.unconnected (hlast.refused hst hd)))
  | asks hst hgate hok hs' =>
    subst hs'
    rw [deedsOf, hst]
    rw [hst] at hlast
    cases hlast with
    | connected h => exact within hpast (hok ▸ .reading h)
  | denied hst hgate hfail hs' =>
    subst hs'
    rw [deedsOf, hst]
    rw [hst] at hlast
    cases hlast with
    | connected h => exact within hpast (hfail ▸ .cancelling (.denied h))
  | hears hst hh hs' =>
    subst hs'
    rw [deedsOf, hst]
    rw [hst] at hlast
    cases hlast with
    | reading h => exact idle hpast (.sending h)
  | lags hst hh hs' =>
    subst hs'
    rw [deedsOf, hst]
    rw [hst] at hlast
    cases hlast with
    | reading h => exact idle hpast (.reading h)
  | ends hst hh hs' =>
    subst hs'
    rw [deedsOf, hst]
    rw [hst] at hlast
    cases hlast with
    | reading h => exact idle hpast (.cancelling (.served false h))
  | returns hst hs' =>
    subst hs'
    rw [deedsOf, hst]
    rw [hst] at hlast
    cases hlast with
    | sending h => exact idle hpast (.reading h)
  | sends hst hopen hroom hs' =>
    subst hs'
    rw [deedsOf, hst]
    rw [hst] at hlast
    cases hlast with
    | sending h => exact idle hpast (.sending h)
  | cancels hst hgate hs' =>
    subst hs'
    rw [deedsOf, hst]
    rw [hst] at hlast
    cases hlast with
    | cancelling h => exact within hpast (.left h)
  | retries hst hgate hs' =>
    subst hs'
    rw [deedsOf, hst]
    rw [hst] at hlast
    cases hlast with
    | cancelling h => exact again hpast h .pausing
  | resumes hst hdue hs' =>
    subst hs'
    rw [deedsOf, hst]
    rw [hst] at hlast
    cases hlast
    exact idle hpast .locking

theorem notices (h : Lifecycle s.contract s.stage ds) (hn : Notices c s s' c') :
    Lifecycle s'.contract s'.stage ds := by
  obtain ⟨hpast, hlast⟩ := h
  cases hn with
  | reading hst hclosed hs' =>
    subst hs'
    rw [hst] at hlast
    cases hlast with
    | reading h => exact .mk hpast (.cancelling (.served true h))
  | sending hst hclosed hs' =>
    subst hs'
    rw [hst] at hlast
    cases hlast with
    | sending h => exact .mk hpast (.cancelling (.served true h))
  | pausing hst hclosed hs' =>
    subst hs'
    rw [hst] at hlast
    cases hlast
    exact .mk hpast .ended

end Lifecycle

/-! ## What follows what -/

/-- What a stream can do next after a deed. -/
def Follows (contract : Contract) : Deed → Deed → Prop
  | .finds true, d | .connected true, d => d = .calls (.marketData contract)
  | .finds false, d => d = .calls .connect
  | .calls .connect, d => ∃ ok, d = .connected ok
  | .calls (.marketData _), d => ∃ ok, d = .answered ok
  | .connected false, d | .answered _, d => d = .calls (.cancel contract)
  | .calls (.cancel _), d => d = .calls .disconnect
  | .calls .disconnect, d => ∃ connected, d = .finds connected
  | .calls (.history _ _), _ => False

section Order

variable {contract : Contract} {gone : Bool} {stage : Stage} {ds l₁ l₂ : List Deed}

/-- In a session each call is made once at most, the cancelling last, and nothing is
disconnected. -/
theorem Session.once (h : Session contract gone ds) :
    (ds.filterMap Deed.call?).Nodup ∧ ds.getLast? = some (.calls (.cancel contract)) ∧
      .calls .disconnect ∉ ds := by
  cases h with
  | unconnected h => cases h with | dialled => simp [List.filterMap_cons, Deed.call?]
  | denied h => cases h <;> simp [List.filterMap_cons, Deed.call?]
  | served gone h => cases h <;> simp [List.filterMap_cons, Deed.call?]

theorem Session.chain (h : Session contract gone ds) :
    ds.IsChain (Follows contract) ∧ ∃ b, ds.head? = some (.finds b) := by
  cases h with
  | unconnected h => cases h with | dialled => simp [Follows]
  | denied h => cases h <;> simp [Follows]
  | served gone h => cases h <;> simp [Follows]

theorem Retried.chain (h : Retried contract ds) :
    ds.IsChain (Follows contract) ∧ ∀ d ∈ ds.getLast?, d = .calls .disconnect := by
  induction h with
  | nil => exact ⟨.nil, by simp⟩
  | @snoc ds session _ hs ih =>
    obtain ⟨hchain, b, hfirst⟩ := hs.chain
    obtain ⟨-, hlast, -⟩ := hs.once
    have hne : session ≠ [] := by
      rintro rfl
      cases hfirst
    refine ⟨ih.1.append (hchain.append (.singleton _) ?_) ?_, by simp⟩
    · simp [hlast, Follows]
    · intro d hd d' hd'
      rw [ih.2 d hd]
      rw [List.head?_append_of_ne_nil _ hne, hfirst] at hd'
      cases hd'
      exact ⟨b, rfl⟩

/-- The last session begins with a look for a connection, and how it ends tells the stage. -/
theorem Within.chain (h : Within contract stage ds) :
    ds.IsChain (Follows contract) ∧ ∀ d ∈ ds.head?, ∃ b, d = .finds b := by
  have hconnecting {ok : Bool} {ds : List Deed} (h : Connecting ok ds) :
      ds.IsChain (Follows contract) ∧ ∀ d ∈ ds.head?, ∃ b, d = .finds b := by
    cases h <;> simp [Follows]
  cases h with
  | connected h => exact hconnecting h
  | reading h | sending h => cases h <;> simp [Follows]
  | cancelling h =>
    obtain ⟨hchain, b, hfirst⟩ := h.chain
    refine ⟨hchain.left_of_append, fun d hd => ⟨b, ?_⟩⟩
    cases ds with
    | nil => cases hd
    | cons a rest =>
      cases hd
      exact Option.some.inj hfirst
  | left h =>
    obtain ⟨hchain, b, hfirst⟩ := h.chain
    exact ⟨hchain, by simp [hfirst]⟩
  | _ => simp [Follows]

/-- Where a stream stands whose last deed was to be granted its request. -/
def Stage.isServed : Stage → Bool
  | .reading _ => true
  | .sending _ _ => true
  | .cancelling _ => true
  | _ => false

theorem Within.last (h : Within contract stage ds) :
    (ds.getLast? = some (.answered true) → stage.isServed = true) ∧
      (ds.getLast? = some (.calls (.cancel contract)) → stage = .ended) := by
  cases h with
  | connected h => cases h <;> simp
  | reading h | sending h => simp [Stage.isServed]
  | @cancelling gone ds h =>
    refine ⟨fun _ => rfl, fun hlast => ?_⟩
    -- a session is not cancelled twice
    obtain ⟨rest, rfl⟩ := List.getLast?_eq_some_iff.1 hlast
    have hnodup := h.once.1
    simp [List.filterMap_append, Deed.call?, List.nodup_append] at hnodup
  | left h => simp [h.once.2.1]
  | _ => simp

theorem Lifecycle.chain (h : Lifecycle contract stage ds) : ds.IsChain (Follows contract) := by
  obtain ⟨hpast, hlast⟩ := h
  refine hpast.chain.1.append hlast.chain.1 fun d hd d' hd' => ?_
  rw [hpast.chain.2 d hd]
  exact hlast.chain.2 d' hd'

theorem Lifecycle.last (h : Lifecycle contract stage ds) :
    (ds.getLast? = some (.answered true) → stage.isServed = true) ∧
      (ds.getLast? = some (.calls (.cancel contract)) → stage = .ended) := by
  obtain ⟨hpast, hlast⟩ := h
  rw [List.getLast?_append]
  rename_i past last
  cases hend : last.getLast? with
  | some d =>
    rw [Option.some_or, ← hend]
    exact hlast.last
  | none =>
    rw [Option.none_or]
    have hdisconnect := hpast.chain.2
    refine ⟨fun heq => ?_, fun heq => ?_⟩ <;> cases hdisconnect _ heq

/-- What comes after a request for market data that was granted: nothing yet, or its cancelling.
After that the stream has ended, or it disconnects, and then it looks for a connection. -/
inductive Granted (contract : Contract) (stage : Stage) : List Deed → Prop where
  | open (h : stage.isServed = true) : Granted contract stage []
  | left (h : stage = .ended) : Granted contract stage [.calls (.cancel contract)]
  | over {l : List Deed} (h : ∀ d ∈ l.head?, ∃ connected, d = .finds connected) :
      Granted contract stage (.calls (.cancel contract) :: .calls .disconnect :: l)

theorem Lifecycle.granted (h : Lifecycle contract stage (l₁ ++ Deed.answered true :: l₂)) :
    Granted contract stage l₂ := by
  have hlast := h.last
  have hchain : (Deed.answered true :: l₂).IsChain (Follows contract) :=
    h.chain.right_of_append
  match l₂ with
  | [] => exact .open (hlast.1 (by simp))
  | [d] =>
    obtain rfl : d = _ := (List.isChain_cons_cons.1 hchain).1
    exact .left (hlast.2 (by simp))
  | d :: d' :: l =>
    rw [List.isChain_cons_cons, List.isChain_cons_cons] at hchain
    obtain ⟨rfl, rfl, hrest⟩ := hchain
    refine .over fun d hd => ?_
    cases l with
    | nil => cases hd
    | cons a rest =>
      cases hd
      exact (List.isChain_cons_cons.1 hrest).1

end Order

/-! ## All streams of a history -/

/-- What a stream keeps to. -/
structure Trail (s : Stream) (ds : List Deed) : Prop where
  lifecycle : Lifecycle s.contract s.stage ds
  /-- The last session is over for good only if the consumer has gone. -/
  gone : s.stage = .cancelling true ∨ s.stage = .ended → s.queue.closed = true

/-- What is found of the streams of a connector after a history: those that are there have left
their trails, and no others have done anything. -/
structure Trails (h : List (Incident (Timed Connector) Event)) (t : Timed Connector) : Prop where
  present : ∀ id s, t.world.stream? id = some s → Trail s (deeds id h)
  absent : ∀ id, t.world.stream? id = none → deeds id h = []

section Histories

variable {c c' : Connector} {now id start : Nat} {t t' : Timed Connector} {e : Event}
  {s s' : Stream} {ds : List Deed} {h h' : List (Incident (Timed Connector) Event)}

namespace Trail

theorem goes (h : Trail s ds) (hg : StreamGoes now c s s' c') : Trail s' (ds ++ deedsOf c s) := by
  refine ⟨h.lifecycle.goes hg, fun hover => ?_⟩
  -- of all that a stream does, only the last cancelling makes an end
  cases hg with
  | cancels hst hgate hs' =>
    subst hs'
    exact h.gone (.inl hst)
  | _ =>
    subst_vars
    rcases hover with hover | hover <;> cases hover

theorem notices (h : Trail s ds) (hn : Notices c s s' c') : Trail s' ds := by
  refine ⟨h.lifecycle.notices hn, fun _ => ?_⟩
  cases hn with
  | reading hst hclosed hs' | sending hst hclosed hs' | pausing hst hclosed hs' =>
    subst hs'
    exact hclosed

theorem begins (id : Nat) (contract : Contract) (queue : Channel Ticker) :
    Trail ⟨id, contract, queue, .connecting .locking⟩ [] where
  lifecycle := .mk .nil .locking
  gone := by
    rintro (hover | hover) <;> cases hover

end Trail

theorem Trails.next (h' : Trails h t) (he : happens e t = some t') :
    Trails (h ++ [⟨t, e, t'⟩]) t' := by
  refine ⟨fun id s' hs' => ?_, fun id hs' => ?_⟩
  · rw [deeds_concat]
    cases fares_of_happens he id with
    | goes hs hevent hg hs₁ =>
      cases hs'.symm.trans hs₁
      subst hevent
      rw [deedsAt_stream hs]
      exact (h'.present id _ hs).goes hg
    | notices hs hevent hn hs₁ =>
      cases hs'.symm.trans hs₁
      rw [deedsAt_of_ne (by simp [hevent]), List.append_nil]
      exact (h'.present id _ hs).notices hn
    | serves hs hevent hclosed hs₁ =>
      cases hs'.symm.trans hs₁
      rw [deedsAt_of_ne hevent, List.append_nil]
      have htrail := h'.present id _ hs
      exact ⟨htrail.lifecycle, fun hover => hclosed (htrail.gone hover)⟩
    | begins hs hevent hs₁ =>
      cases hs'.symm.trans hs₁
      rw [deedsAt_of_absent hs, h'.absent id hs]
      exact .begins _ _ _
    | stays hsame hevent =>
      rw [deedsAt_of_ne hevent, List.append_nil]
      exact h'.present id s' (hsame ▸ hs')
  · rw [deeds_concat]
    cases fares_of_happens he id with
    | stays hsame hevent =>
      have hs := hsame.symm.trans hs'
      rw [deedsAt_of_absent hs, h'.absent id hs]
      rfl
    | goes _ _ _ hs₁ | notices _ _ _ hs₁ | serves _ _ _ hs₁ | begins _ _ hs₁ =>
      cases hs'.symm.trans hs₁

theorem trails_of_history {config : Config} {gateway : Gateway} {timeOfDay : Nat → Instant}
    (hc : Connector.new config gateway timeOfDay = .ok c) (hist : History happens ⟨start, c⟩ h t) :
    Trails h t := by
  induction hist with
  | nil =>
    obtain ⟨l, -, rfl⟩ := new_eq hc
    refine ⟨?_, fun _ _ => rfl⟩
    rintro id s ⟨⟩
  | snoc _ he ih => exact ih.next he

/-! ## The end of a stream -/

/-- Where a stream stands that was about to cancel for good, and what it has done since. -/
inductive Leaving (contract : Contract) : Stage → List Deed → Prop where
  | before : Leaving contract (.cancelling true) []
  | after : Leaving contract .ended [.calls (.cancel contract)]

theorem Leaving.goes (hl : Leaving s.contract s.stage ds) (hg : StreamGoes now c s s' c') :
    Leaving s.contract s'.stage (ds ++ deedsOf c s) := by
  generalize hstage : s.stage = stage at hl
  cases hl with
  | before =>
    rw [deedsOf, hstage]
    cases hg with
    | cancels _ hgate hs' =>
      subst hs'
      exact .after
    | _ hst => cases hstage.symm.trans hst
  | after => cases hg with | _ hst => cases hstage.symm.trans hst

/-- It does not look for its consumer any more. -/
theorem Leaving.not_notices (hl : Leaving s.contract s.stage ds) : ¬ Notices c s s' c' := by
  intro hn
  generalize hstage : s.stage = stage at hl
  cases hl <;> cases hn with | _ hst => cases hstage.symm.trans hst

/-- What holds of a stream and its deeds holds on, if all that can come to it keeps that. -/
theorem follows_of_history {P : Stream → List Deed → Prop} (hist : History happens t h t')
    (hs : t.world.stream? id = some s) (hstart : P s [])
    (hgoes : ∀ {now c c' s s' ds}, P s ds → StreamGoes now c s s' c' → P s' (ds ++ deedsOf c s))
    (hnotices : ∀ {c c' s s' ds}, P s ds → Notices c s s' c' → P s' ds)
    (hserves : ∀ {s ds} queue, P s ds → P { s with queue } ds) :
    ∃ s', t'.world.stream? id = some s' ∧ P s' (deeds id h) := by
  induction hist with
  | nil => exact ⟨s, hs, hstart⟩
  | @snoc h t' t'' e hist he ih =>
    obtain ⟨s', hs', hP⟩ := ih
    rw [deeds_concat]
    cases fares_of_happens he id with
    | goes hs₀ hevent hg hs₁ =>
      cases hs'.symm.trans hs₀
      subst hevent
      rw [deedsAt_stream hs']
      exact ⟨_, hs₁, hgoes hP hg⟩
    | notices hs₀ hevent hn hs₁ =>
      cases hs'.symm.trans hs₀
      rw [deedsAt_of_ne (by simp [hevent]), List.append_nil]
      exact ⟨_, hs₁, hnotices hP hn⟩
    | serves hs₀ hevent hclosed hs₁ =>
      cases hs'.symm.trans hs₀
      rw [deedsAt_of_ne hevent, List.append_nil]
      exact ⟨_, hs₁, hserves _ hP⟩
    | begins hs₀ hevent hs₁ => cases hs'.symm.trans hs₀
    | stays hsame hevent =>
      rw [deedsAt_of_ne hevent, List.append_nil]
      exact ⟨s', hsame.trans hs', hP⟩

/-- A session that ends because the consumer has gone is cancelled, and nothing comes after that. -/
theorem left_of_history (hist : History happens t h t') (hs : t.world.stream? id = some s)
    (hst : s.stage = .cancelling true) :
    ∃ s', t'.world.stream? id = some s' ∧ Leaving s.contract s'.stage (deeds id h) := by
  obtain ⟨s', hs', -, hleaving⟩ := follows_of_history
    (P := fun s' ds => s'.contract = s.contract ∧ Leaving s.contract s'.stage ds) hist hs
    ⟨rfl, hst ▸ .before⟩
    (fun ⟨hcontract, hl⟩ hg =>
      ⟨hg.frame.2.1.trans hcontract, hcontract ▸ (hcontract ▸ hl : Leaving _ _ _).goes hg⟩)
    (fun ⟨hcontract, hl⟩ hn => absurd hn (hcontract ▸ hl : Leaving _ _ _).not_notices)
    fun _ h => h
  exact ⟨s', hs', hleaving⟩

/-- A stream that has ended does nothing more. -/
theorem ended_of_history (hist : History happens t h t') (hs : t.world.stream? id = some s)
    (hst : s.stage = .ended) :
    ∃ s', t'.world.stream? id = some s' ∧ s'.stage = .ended ∧ deeds id h = [] :=
  follows_of_history (P := fun s ds => s.stage = .ended ∧ ds = []) hist hs ⟨hst, rfl⟩
    (fun ⟨hst, _⟩ hg => by cases hg with | _ hst' => cases hst.symm.trans hst')
    (fun ⟨hst, _⟩ hn => by cases hn with | _ hst' => cases hst.symm.trans hst')
    fun _ h => h

end Histories

end Ibkr
end MarketFeed
