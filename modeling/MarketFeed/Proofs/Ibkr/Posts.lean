import MarketFeed.Proofs.Ibkr.Sessions
import MarketFeed.Proofs.Tasks.Lock

/-!
# MarketFeed.Proofs.Ibkr.Posts

What the calls and streams of a connector wait for: their turn to connect, and grants.

* `Sound` — calls and streams have different numbers, which are not given twice.
* `Post`, `Connector.post` — what the task of a number waits for.
* `Shifts`, `shifts_of_happens` — what an event does to the post of one task, to the lock, to the
  gate and to the connection; the posts of all others stay.
* `Dialling`, `Unconnected` — who goes to connect holds the lock, and there is no connection.
* `dials_alone` — every call to connect is made by the holder of the lock, without a connection.
-/

namespace MarketFeed
namespace Ibkr

/-! ## Numbers -/

/-- Calls and streams are numbered apart, and a call that is only to connect asks for nothing. -/
structure Sound (c : Connector) : Prop where
  streams : ∀ id, c.nextId ≤ id → c.stream? id = none
  calls : ∀ id, c.nextId ≤ id → c.call? id = none
  apart : ∀ id, c.stream? id = none ∨ c.call? id = none
  connects : ∀ id k, c.call? id = some k → k.task = .connect → k.stage ≠ .pacing

section Numbers

variable {c c' : Connector} {id now start : Nat} {s s' : Stream} {k k' : Call}
  {t t' : Timed Connector} {e : Event}

theorem call?_call (c : Connector) (task : Task) (id : Nat) :
    (c.call task).2.call? id = (c.call? id).or
      (if c.nextId = id then some ⟨c.nextId, task, .connecting .locking⟩ else none) := by
  simp only [Connector.call, Connector.call?, List.find?_append, List.find?_singleton,
    decide_eq_true_eq]

theorem call?_forget (c : Connector) (i id : Nat) :
    (c.forget i).call? id = if id = i then none else c.call? id := by
  simp only [Connector.forget, Connector.forgetCall, Connector.call?, List.find?_filter]
  split
  · rename_i hid
    subst hid
    rw [List.find?_eq_none]
    intro k hk
    by_cases hki : k.id = id <;> simp [hki]
  · rename_i hid
    congr 1
    funext k
    by_cases hki : k.id = id
    · simp [hki, hid]
    · simp [hki]

theorem StreamGoes.call?_same (h : StreamGoes now c s s' c') (id : Nat) :
    c'.call? id = c.call? id := by
  rw [Connector.call?, h.frame.2.2.2.1]
  rfl

theorem Notices.call?_same (h : Notices c s s' c') (id : Nat) : c'.call? id = c.call? id := by
  rw [Connector.call?, h.frame.2.2.2.1]
  rfl

theorem CallGoes.stream?_same (h : CallGoes now c k k' c') (id : Nat) :
    c'.stream? id = c.stream? id := by
  rw [Connector.stream?, h.frame.2.2.1]
  rfl

/-- Only a call that asks for history waits for a grant to do so. -/
theorem CallGoes.stage_ne_pacing (h : CallGoes now c k k' c') (htask : k.task = .connect)
    (hst : k.stage ≠ .pacing) : k'.stage ≠ .pacing := by
  cases h with
  | queues _ _ htask' => cases htask.symm.trans htask'
  | idles hst' => exact absurd hst' hst
  | _ => subst_vars; simp

/-- A task stays away from the numbers that are not given yet. -/
theorem Sound.of_same (h : Sound c) (hnext : c'.nextId = c.nextId)
    (hstreams : ∀ id, c'.stream? id = none ↔ c.stream? id = none)
    (hcalls : ∀ id, c'.call? id = none ↔ c.call? id = none)
    (hconnects : ∀ id k, c'.call? id = some k → k.task = .connect → k.stage ≠ .pacing) :
    Sound c' where
  streams id hid := (hstreams id).2 (h.streams id (hnext ▸ hid))
  calls id hid := (hcalls id).2 (h.calls id (hnext ▸ hid))
  apart id := (h.apart id).imp (hstreams id).2 (hcalls id).2
  connects := hconnects

/-- A task that goes on is there before and after that, and the others stay what they are. -/
theorem none_iff_of_update {α : Type} {f g : Nat → Option α} {i : Nat} {a b : α}
    (hf : f i = some a) (hg : g i = some b) (hsame : ∀ id, i ≠ id → g id = f id) (id : Nat) :
    g id = none ↔ f id = none := by
  by_cases hid : i = id
  · subst hid
    simp [hf, hg]
  · rw [hsame id hid]

theorem Sound.setStream (h : Sound c) (hs : c.stream? s.id = some s') :
    Sound (c.setStream s) :=
  h.of_same rfl
    (none_iff_of_update hs (stream?_setStream_self hs) fun _ hne => stream?_setStream_of_ne hne)
    (fun _ => Iff.rfl) h.connects

theorem Sound.next (h : Sound t.world) (he : happens e t = some t') : Sound t'.world := by
  cases happening_of_happens he with
  | goes hs hg =>
    refine h.of_same hg.frame.2.2.2.2.1
      (none_iff_of_update hs (hg.stream? hs) fun _ hne => hg.stream?_of_ne hne)
      (fun id => by rw [hg.call?_same id]) fun id k hk => ?_
    rw [hg.call?_same id] at hk
    exact h.connects id k hk
  | notices hs hn =>
    refine h.of_same hn.frame.2.2.2.2.1
      (none_iff_of_update hs (hn.stream? hs) fun _ hne => hn.stream?_of_ne hne)
      (fun id => by rw [hn.call?_same id]) fun id k hk => ?_
    rw [hn.call?_same id] at hk
    exact h.connects id k hk
  | @calls k k' c' hk hg =>
    refine h.of_same hg.frame.2.2.2.1 (fun id => by rw [hg.stream?_same id])
      (none_iff_of_update hk (hg.call? hk) fun _ hne => hg.call?_of_ne hne) fun id l hl htask => ?_
    by_cases hid : k.id = id
    · subst hid
      cases (hg.call? hk).symm.trans hl
      have htask' := hg.frame.2.1.symm.trans htask
      exact hg.stage_ne_pacing htask' (h.connects _ _ hk htask')
    · rw [hg.call?_of_ne hid] at hl
      exact h.connects id l hl htask
  | starts task =>
    have hcall := call?_call t.world task
    refine ⟨fun id hid => h.streams id (Nat.le_of_succ_le hid), fun id hid => ?_, fun id => ?_,
      fun id k hk htask => ?_⟩
    · have hid : t.world.nextId + 1 ≤ id := hid
      rw [hcall, h.calls id (by omega), Option.none_or, if_neg (by omega)]
    · by_cases hid : t.world.nextId = id
      · exact .inl (h.streams id (Nat.le_of_eq hid))
      · rw [hcall, if_neg hid, Option.or_none]
        exact h.apart id
    · rw [hcall, Option.or_eq_some_iff] at hk
      rcases hk with hk | ⟨-, hk⟩
      · exact h.connects id k hk htask
      · split at hk
        · cases hk
          simp
        · cases hk
  | @forgets k hk =>
    have hcall := call?_forget t.world k.id
    refine ⟨h.streams, fun id hid => ?_, fun id => ?_, fun id l hl => ?_⟩
    · rw [hcall, h.calls id hid, ite_self]
    · refine (h.apart id).imp_right fun hnone => ?_
      rw [hcall, hnone, ite_self]
    · rw [hcall] at hl
      split at hl
      · cases hl
      · exact h.connects id l hl
  | begins contract =>
    have hstream := stream?_openStream t.world contract
    refine ⟨fun id hid => ?_, fun id hid => h.calls id (Nat.le_of_succ_le hid), fun id => ?_,
      h.connects⟩
    · have hid : t.world.nextId + 1 ≤ id := hid
      rw [hstream, h.streams id (by omega), Option.none_or, if_neg (by omega)]
    · by_cases hid : t.world.nextId = id
      · exact .inr (h.calls id (Nat.le_of_eq hid))
      · rw [hstream, if_neg hid, Option.or_none]
        exact h.apart id
  | @receives s hs => exact h.setStream (s := { s with queue := _ }) hs
  | @drops s hs => exact h.setStream (s := { s with queue := _ }) hs
  | misses _ _ => exact h
  | changes _ => exact ⟨h.streams, h.calls, h.apart, h.connects⟩
  | waits _ => exact h

theorem sound_of_new {config : Config} {gateway : Gateway} {timeOfDay : Nat → Instant}
    (hc : Connector.new config gateway timeOfDay = .ok c) : Sound c := by
  obtain ⟨l, -, rfl⟩ := new_eq hc
  refine ⟨fun _ _ => rfl, fun _ _ => rfl, fun _ => .inl rfl, ?_⟩
  rintro id k ⟨⟩

end Numbers

/-! ## Posts -/

/-- What a task waits for. -/
inductive Post where
  | dial (d : Dial)
  /-- A grant, with the connection made, or lost. -/
  | grant
  /-- Neither of them. -/
  | away
  deriving DecidableEq

/-- The task waits for a grant. -/
def Post.paces : Post → Bool
  | .dial .pacing => true
  | .grant => true
  | _ => false

def Stage.post : Stage → Post
  | .connecting d => .dial d
  | .pacing _ => .grant
  | .cancelling _ => .grant
  | _ => .away

def CallStage.post : CallStage → Post
  | .connecting d => .dial d
  | .pacing => .grant
  | .finished _ => .away

/-- What the task of a number waits for, be it a stream or a call. -/
def Connector.post (c : Connector) (id : Nat) : Post :=
  match c.stream? id with
  | some s => s.stage.post
  | none => ((c.call? id).map fun k => k.stage.post).getD .away

section Posts

variable {c c' : Connector} {id : Nat} {s : Stream} {k : Call}

theorem post_of_stream (hs : c.stream? id = some s) : c.post id = s.stage.post := by
  rw [Connector.post, hs]

theorem post_of_call (hs : c.stream? id = none) (hk : c.call? id = some k) :
    c.post id = k.stage.post := by
  rw [Connector.post, hs, hk]
  rfl

theorem post_of_none (hs : c.stream? id = none) (hk : c.call? id = none) : c.post id = .away := by
  rw [Connector.post, hs, hk]
  rfl

theorem post_congr (hs : c'.stream? id = c.stream? id) (hk : c'.call? id = c.call? id) :
    c'.post id = c.post id := by
  rw [Connector.post, hs, hk]
  rfl

end Posts

/-- How a task may join the gate when it is done with something else. -/
inductive Enters (g : Gate Nat) (id : Nat) : Post → Gate Nat → Prop where
  | queues : Enters g id .grant (g.join id)
  | leaves : Enters g id .away g

/-- What comes to the task of a number in an event, to the lock, to the gate, and to the
connection. -/
inductive Shifts (now : Nat) (e : Event) (id : Nat) (l : Lock) (g : Gate Nat) (b : Bool) :
    Post → Post → Lock → Gate Nat → Bool → Prop where
  | stays {p : Post} : Shifts now e id l g b p p l g b
  | joins : Shifts now e id l g b .away (.dial .locking) (l.join id) g b
  | uses {p : Post} {g' : Gate Nat} (hheld : l.heldBy id = true) (hg : Enters g id p g') :
      Shifts now e id l g b (.dial .locking) p (l.leave id) g' b
  | lacks (hheld : l.heldBy id = true) (hb : b = false) :
      Shifts now e id l g b (.dial .locking) (.dial .pacing) l (g.join id) b
  | dials {g' : Gate Nat} {due : Nat} (hg : g.acquire? now id = some g') :
      Shifts now e id l g b (.dial .pacing) (.dial (.dialling due)) l g' b
  | connects {due : Nat} {p : Post} {g' : Gate Nat} {b' : Bool} (hg : Enters g id p g') :
      Shifts now e id l g b (.dial (.dialling due)) p (l.leave id) g' b'
  | asks {p : Post} {g' g'' : Gate Nat} {b' : Bool}
      (he : e = .move (.stream id) ∨ e = .move (.call id))
      (hgate : g.acquire? now id = some g') (hg : Enters g' id p g'')
      (hb : b' = true → b = true) :
      Shifts now e id l g b .grant p l g'' b'
  | ends : Shifts now e id l g b .away .grant l (g.join id) b
  | forgets {p : Post} : Shifts now e id l g b p .away (l.leave id) (g.leave id) b
  | changes {p : Post} {gateway : Gateway} (he : e = .change gateway) :
      Shifts now e id l g b p p l g gateway.isConnected

section Shifting

variable {t t' : Timed Connector} {e : Event} {c c' : Connector} {now id : Nat} {s s' : Stream}
  {k k' : Call}

theorem StreamGoes.shifts (h : StreamGoes now c s s' c') (he : e = .move (.stream s.id)) :
    Shifts now e s.id c.dialLock c.gate c.gateway.isConnected s.stage.post s'.stage.post
      c'.dialLock c'.gate c'.gateway.isConnected := by
  cases h with
  | dials hst hd hs' =>
    subst hs'
    rw [hst]
    cases hd with
    | lacks hheld hthere => exact .lacks hheld hthere
    | dials hgate => exact .dials hgate
  | connects hst hd hs' =>
    subst hs'
    rw [hst]
    cases hd with
    | uses hheld hthere => exact .uses hheld .queues
    | connects hdue hok => exact .connects .queues
  | refused hst hd hs' =>
    subst hs'
    rw [hst]
    cases hd with
    | refused hdue hfail => exact .connects .queues
  | asks hst hgate hok hs' =>
    subst hs'
    rw [hst]
    exact .asks (.inl he) hgate .leaves id
  | denied hst hgate hfail hs' =>
    subst hs'
    rw [hst]
    exact .asks (.inl he) hgate .queues id
  | hears hst hh hs' | lags hst hh hs' =>
    subst hs'
    rw [hst]
    exact .stays
  | ends hst hh hs' =>
    subst hs'
    rw [hst]
    exact .ends
  | returns hst hs' =>
    subst hs'
    rw [hst]
    exact .stays
  | sends hst hopen hroom hs' =>
    subst hs'
    rw [hst]
    exact .stays
  | cancels hst hgate hs' =>
    subst hs'
    rw [hst]
    exact .asks (.inl he) hgate .leaves id
  | retries hst hgate hs' =>
    subst hs'
    rw [hst]
    exact .asks (.inl he) hgate .leaves (by simp [Gateway.disconnect])
  | resumes hst hdue hs' =>
    subst hs'
    rw [hst]
    exact .joins

theorem Notices.shifts (h : Notices c s s' c') :
    Shifts now e s.id c.dialLock c.gate c.gateway.isConnected s.stage.post s'.stage.post
      c'.dialLock c'.gate c'.gateway.isConnected := by
  cases h with
  | reading hst hclosed hs' | sending hst hclosed hs' =>
    subst hs'
    rw [hst]
    exact .ends
  | pausing hst hclosed hs' =>
    subst hs'
    rw [hst]
    exact .stays

theorem CallGoes.shifts (h : CallGoes now c k k' c') (he : e = .move (.call k.id))
    (hconnects : k.task = .connect → k.stage ≠ .pacing) :
    Shifts now e k.id c.dialLock c.gate c.gateway.isConnected k.stage.post k'.stage.post
      c'.dialLock c'.gate c'.gateway.isConnected := by
  cases h with
  | dials hst hd hk' =>
    subst hk'
    rw [hst]
    cases hd with
    | lacks hheld hthere => exact .lacks hheld hthere
    | dials hgate => exact .dials hgate
  | connects hst hd htask hk' =>
    subst hk'
    rw [hst]
    cases hd with
    | uses hheld hthere => exact .uses hheld .leaves
    | connects hdue hok => exact .connects .leaves
  | queues hst hd htask hk' =>
    subst hk'
    rw [hst]
    cases hd with
    | uses hheld hthere => exact .uses hheld .queues
    | connects hdue hok => exact .connects .queues
  | refused hst hd hk' =>
    subst hk'
    rw [hst]
    cases hd with
    | refused hdue hfail => exact .connects .leaves
  | asks hst hgate htask hk' =>
    subst hk'
    rw [hst]
    exact .asks (.inr he) hgate .leaves id
  | idles hst hgate htask => exact absurd hst (hconnects htask)

/-- An event changes the post of one task at most. -/
theorem shifts_of_happens (hsound : Sound t.world) (he : happens e t = some t') :
    ∃ id, Shifts t.now e id t.world.dialLock t.world.gate t.world.gateway.isConnected
        (t.world.post id) (t'.world.post id) t'.world.dialLock t'.world.gate
        t'.world.gateway.isConnected ∧
      ∀ i, id ≠ i → t'.world.post i = t.world.post i := by
  have hqueue {s : Stream} {queue : Channel Ticker} (hs : t.world.stream? s.id = some s) (i : Nat) :
      (t.world.setStream { s with queue }).post i = t.world.post i := by
    by_cases hid : s.id = i
    · subst hid
      have hnew : (t.world.setStream { s with queue }).stream? s.id = some { s with queue } :=
        stream?_setStream_self (s := { s with queue }) hs
      rw [post_of_stream hs, post_of_stream hnew]
    · exact post_congr (stream?_setStream_of_ne (s := { s with queue }) hid) rfl
  cases happening_of_happens he with
  | @goes s s' c' hs hg =>
    refine ⟨s.id, ?_, fun i hne => post_congr (hg.stream?_of_ne hne) (hg.call?_same i)⟩
    rw [post_of_stream hs, post_of_stream (hg.stream? hs)]
    exact hg.shifts rfl
  | @notices s s' c' hs hn =>
    refine ⟨s.id, ?_, fun i hne => post_congr (hn.stream?_of_ne hne) (hn.call?_same i)⟩
    rw [post_of_stream hs, post_of_stream (hn.stream? hs)]
    exact hn.shifts
  | @calls k k' c' hk hg =>
    have hnone : t.world.stream? k.id = none :=
      (hsound.apart k.id).resolve_right fun hno => by cases hno.symm.trans hk
    refine ⟨k.id, ?_, fun i hne => post_congr (hg.stream?_same i) (hg.call?_of_ne hne)⟩
    rw [post_of_call hnone hk, post_of_call ((hg.stream?_same _).trans hnone) (hg.call? hk)]
    exact hg.shifts rfl (hsound.connects _ _ hk)
  | starts task =>
    have hcall := call?_call t.world task
    have hs := hsound.streams t.world.nextId (Nat.le_refl _)
    have hk := hsound.calls t.world.nextId (Nat.le_refl _)
    refine ⟨t.world.nextId, ?_, fun i hne => post_congr rfl ?_⟩
    · have hnew := hcall t.world.nextId
      rw [hk, Option.none_or, if_pos rfl] at hnew
      have hpost : (t.world.call task).2.post t.world.nextId = .dial .locking :=
        post_of_call (c := (t.world.call task).2) hs hnew
      rw [post_of_none hs hk, hpost]
      exact .joins
    · rw [hcall, if_neg hne, Option.or_none]
  | @forgets k hk =>
    have hcall := call?_forget t.world k.id
    have hnone : t.world.stream? k.id = none :=
      (hsound.apart k.id).resolve_right fun hno => by cases hno.symm.trans hk
    refine ⟨k.id, ?_, fun i hne => post_congr rfl ?_⟩
    · have hgone := hcall k.id
      rw [if_pos rfl] at hgone
      have hpost : (t.world.forget k.id).post k.id = .away := post_of_none hnone hgone
      rw [hpost]
      exact .forgets
    · rw [hcall, if_neg fun heq => hne heq.symm]
  | begins contract =>
    have hstream := stream?_openStream t.world contract
    have hs := hsound.streams t.world.nextId (Nat.le_refl _)
    have hk := hsound.calls t.world.nextId (Nat.le_refl _)
    refine ⟨t.world.nextId, ?_, fun i hne => post_congr ?_ rfl⟩
    · have hnew := hstream t.world.nextId
      rw [hs, Option.none_or, if_pos rfl] at hnew
      rw [post_of_none hs hk, post_of_stream hnew]
      exact .joins
    · rw [hstream, if_neg hne, Option.or_none]
  | @receives s hs =>
    refine ⟨s.id, ?_, fun i _ => hqueue hs i⟩
    rw [hqueue hs]
    exact .stays
  | @drops s hs =>
    refine ⟨s.id, ?_, fun i _ => hqueue hs i⟩
    rw [hqueue hs]
    exact .stays
  | changes hcalls => exact ⟨0, .changes rfl, fun _ _ => rfl⟩
  | misses _ _ => exact ⟨0, .stays, fun _ _ => rfl⟩
  | waits _ => exact ⟨0, .stays, fun _ _ => rfl⟩

end Shifting

/-! ## One at a time -/

/-- A task past its turn to connect. -/
def Post.dials : Post → Bool
  | .dial .locking => false
  | .dial _ => true
  | _ => false

/-- Who is past its turn to connect holds the lock. -/
def Dialling (c : Connector) : Prop :=
  ∀ id, (c.post id).dials = true → c.dialLock.heldBy id = true

/-- While one is past its turn to connect there is no connection. -/
def Unconnected (c : Connector) : Prop :=
  ∀ id, (c.post id).dials = true → c.gateway.isConnected = false

/-- The gateway never comes to be connected by itself. -/
def Unbidden (h : List (Incident (Timed Connector) Event)) : Prop :=
  ∀ x ∈ h, ∀ g, x.event = .change g → g.isConnected = true →
    x.before.world.gateway.isConnected = true

section OneAtATime

variable {t t' : Timed Connector} {e : Event} {c : Connector} {start now id i : Nat}
  {l l' : Lock} {g g' : Gate Nat} {b b' : Bool} {p p' : Post}
  {h : List (Incident (Timed Connector) Event)}

theorem Shifts.holds (h : Shifts now e id l g b p p' l' g' b')
    (hheld : p.dials = true → l.heldBy id = true) : p'.dials = true → l'.heldBy id = true := by
  cases h with
  | stays | changes => exact hheld
  | joins | ends | forgets => simp [Post.dials]
  | uses _ hg | connects hg | asks _ _ hg => cases hg <;> simp [Post.dials]
  | lacks hown _ => exact fun _ => hown
  | dials _ => exact fun _ => hheld rfl

/-- The lock is not taken from its holder. -/
theorem Shifts.holds_other (h : Shifts now e id l g b p p' l' g' b') (hne : i ≠ id)
    (hheld : l.heldBy i = true) : l'.heldBy i = true := by
  cases h with
  | joins => exact heldBy_join hheld _
  | uses | connects | forgets => exact heldBy_leave hheld hne
  | _ => exact hheld

theorem Shifts.unconnected (h : Shifts now e id l g b p p' l' g' b')
    (hnone : p.dials = true → b = false)
    (hunbidden : ∀ g, e = .change g → g.isConnected = true → b = true) :
    p'.dials = true → b' = false := by
  cases h with
  | stays => exact hnone
  | joins | ends | forgets => simp [Post.dials]
  | uses _ hg | connects hg | asks _ _ hg => cases hg <;> simp [Post.dials]
  | lacks _ hb => exact fun _ => hb
  | dials _ => exact fun _ => hnone rfl
  | @changes _ gateway he =>
    intro hp
    have hb := hnone hp
    by_contra hnot
    rw [hunbidden gateway he (by simpa using hnot)] at hb
    cases hb

/-- A connection comes only to the one that is past its turn, or by itself. -/
theorem Shifts.unconnected_other (h : Shifts now e id l g b p p' l' g' b')
    (hpast : p.dials = false) (hb : b = false)
    (hunbidden : ∀ g, e = .change g → g.isConnected = true → b = true) : b' = false := by
  cases h with
  | connects => cases hpast
  | asks _ _ _ hsame =>
    by_contra hnot
    rw [hsame (by simpa using hnot)] at hb
    cases hb
  | @changes _ gateway he =>
    by_contra hnot
    rw [hunbidden gateway he (by simpa using hnot)] at hb
    cases hb
  | _ => exact hb

theorem Dialling.next (h : Dialling t.world) (hsound : Sound t.world)
    (he : happens e t = some t') : Dialling t'.world := by
  obtain ⟨id, hshifts, hothers⟩ := shifts_of_happens hsound he
  intro i hpost
  by_cases hid : i = id
  · subst hid
    exact hshifts.holds (h i) hpost
  · rw [hothers i fun heq => hid heq.symm] at hpost
    exact hshifts.holds_other hid (h i hpost)

/-- Only the holder of the lock comes to be connected, and there is no other one. -/
theorem Unconnected.next (h : Unconnected t.world) (hdial : Dialling t.world)
    (hsound : Sound t.world) (he : happens e t = some t')
    (hunbidden : ∀ g, e = .change g → g.isConnected = true →
      t.world.gateway.isConnected = true) : Unconnected t'.world := by
  obtain ⟨id, hshifts, hothers⟩ := shifts_of_happens hsound he
  intro i hpost
  by_cases hid : i = id
  · subst hid
    exact hshifts.unconnected (h i) hunbidden hpost
  · rw [hothers i fun heq => hid heq.symm] at hpost
    refine hshifts.unconnected_other ?_ (h i hpost) hunbidden
    by_contra hpast
    exact hid (heldBy_unique (hdial i hpost) (hdial id (by simpa using hpast)))

/-- What is known of the posts after any history. -/
theorem dialling_of_history {config : Config} {gateway : Gateway} {timeOfDay : Nat → Instant}
    (hc : Connector.new config gateway timeOfDay = .ok c) (hist : History happens ⟨start, c⟩ h t) :
    Sound t.world ∧ Dialling t.world ∧ (Unbidden h → Unconnected t.world) := by
  induction hist with
  | nil =>
    have haway : ∀ id, c.post id = .away := by
      obtain ⟨l, -, rfl⟩ := new_eq hc
      exact fun _ => rfl
    refine ⟨sound_of_new hc, fun id hpost => ?_, fun _ id hpost => ?_⟩ <;>
      rw [haway id] at hpost <;> cases hpost
  | @snoc h t t' e hist he ih =>
    obtain ⟨hsound, hdial, hnone⟩ := ih
    refine ⟨hsound.next he, hdial.next hsound he, fun hunbidden => ?_⟩
    refine (hnone fun x hx => hunbidden x (List.mem_append_left _ hx)).next hdial hsound he ?_
    exact hunbidden ⟨t, e, t'⟩ (List.mem_append_right _ (List.mem_singleton_self _))

theorem stage_of_connect {s : Stream}
    (h : GatewayCall.connect ∈ (deedsOf c s).filterMap Deed.call?) :
    s.stage = .connecting .pacing := by
  cases hst : s.stage with
  | connecting d =>
    rw [deedsOf_connecting hst] at h
    rw [(eq_connect_of_mem h).1]
  | cancelling gone => cases gone <;> simp [deedsOf, hst, Deed.call?] at h
  | _ => simp [deedsOf, hst, Deed.call?] at h

/-- Only a task that goes on past its turn to connect calls to do so. -/
theorem dials_of_happens (hsound : Sound t.world) (he : happens e t = some t')
    (hconnect : (t.now, GatewayCall.connect) ∈
      t'.world.gateway.calls.drop t.world.gateway.calls.length) :
    ∃ id, (e = .move (.stream id) ∨ e = .move (.call id)) ∧ (t.world.post id).dials = true := by
  have hnothing {calls : List (Nat × GatewayCall)} (hsame : calls = t.world.gateway.calls) :
      (t.now, GatewayCall.connect) ∉ calls.drop t.world.gateway.calls.length := by
    rw [hsame, List.drop_length]
    exact List.not_mem_nil
  cases happening_of_happens he with
  | @goes s s' c' hs hg =>
    rw [hg.log, List.drop_left, List.mem_map] at hconnect
    obtain ⟨call, hcall, heq⟩ := hconnect
    cases heq
    refine ⟨s.id, .inl rfl, ?_⟩
    rw [post_of_stream hs, stage_of_connect hcall]
    rfl
  | @calls k k' c' hk hg =>
    obtain ⟨new, hlog, hnew⟩ := hg.log
    rw [hlog, List.drop_left, List.mem_map] at hconnect
    obtain ⟨call, hcall, heq⟩ := hconnect
    cases heq
    have hnone : t.world.stream? k.id = none :=
      (hsound.apart k.id).resolve_right fun hno => by cases hno.symm.trans hk
    refine ⟨k.id, .inr rfl, ?_⟩
    rcases hnew _ hcall with ⟨hst, -⟩ | ⟨contract, request, heq⟩
    · rw [post_of_call hnone hk, hst]
      rfl
    · cases heq
  | notices hs hn => exact absurd hconnect (hnothing (by cases hn <;> rfl))
  | changes hcalls => exact absurd hconnect (hnothing hcalls)
  | _ => exact absurd hconnect (hnothing rfl)

/-- A call to connect is made by the holder of the lock, and while there is no connection. -/
theorem dials_alone {config : Config} {gateway : Gateway} {timeOfDay : Nat → Instant}
    (hc : Connector.new config gateway timeOfDay = .ok c) (hist : History happens ⟨start, c⟩ h t) :
    ∀ x ∈ h, (x.before.now, GatewayCall.connect) ∈
        x.after.world.gateway.calls.drop x.before.world.gateway.calls.length →
      ∃ id, (x.event = .move (.stream id) ∨ x.event = .move (.call id)) ∧
        x.before.world.dialLock.heldBy id = true ∧
        (Unbidden h → x.before.world.gateway.isConnected = false) := by
  induction hist with
  | nil => exact fun x hx => absurd hx List.not_mem_nil
  | @snoc h t t' e hist he ih =>
    have hearlier (hunbidden : Unbidden (h ++ [⟨t, e, t'⟩])) : Unbidden h :=
      fun x hx => hunbidden x (List.mem_append_left _ hx)
    intro x hx hconnect
    rcases List.mem_append.1 hx with hx | hx
    · obtain ⟨id, hevent, hheld, hnone⟩ := ih x hx hconnect
      exact ⟨id, hevent, hheld, fun hunbidden => hnone (hearlier hunbidden)⟩
    · obtain rfl := List.mem_singleton.1 hx
      obtain ⟨hsound, hdial, hnone⟩ := dialling_of_history hc hist
      obtain ⟨id, hevent, hpost⟩ := dials_of_happens hsound he hconnect
      exact ⟨id, hevent, hdial id hpost, fun hunbidden => hnone (hearlier hunbidden) id hpost⟩

end OneAtATime

end Ibkr
end MarketFeed
