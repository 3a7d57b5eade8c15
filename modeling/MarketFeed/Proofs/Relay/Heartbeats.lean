import Mathlib.Data.List.Basic
import MarketFeed.Proofs.Relay.Twins

/-!
# MarketFeed.Proofs.Relay.Heartbeats

What there is to see of a client does not depend on the heartbeats of its peers.

* `Deed`, `Deed.happens` — all that happens to a client on its clock: its tasks go on in any order,
  calls are started, forgotten and given up, peers send and close, and time passes while no task
  can go on.
* `Padded` — the same deeds, but for heartbeats between the frames that the peers send.
* `heartbeats_unseen` — such deeds show the same: at the same times the same results, messages,
  subscriptions, numbers and queues.
-/

namespace MarketFeed
namespace Relay

/-! ## Deeds -/

inductive Deed where
  /-- A task goes on. -/
  | acts (a : Client.Actor)
  /-- The peer of a connection sends bytes. -/
  | sends (n : Nat) (bytes : List UInt8)
  | closes (n : Nat)
  | listens (b : Bool)
  | calls (task : Task)
  | forgets (id : Nat)
  | givesUp (id : Nat)
  /-- Time passes, not beyond a time that a task waits for. -/
  | waits (later : Nat)

namespace Deed

/-- What comes of a deed; none where it cannot happen. -/
def happens : Deed → Timed Client → Option (Timed Client)
  | .acts a, s => (Client.system.step s.now a s.world).map fun c => { s with world := c }
  | .sends n bytes, s =>
    if n < s.world.connections.length then
      some (s.update fun c => c.onConnection n fun x => Peer.deliver x bytes)
    else none
  | .closes n, s =>
    if n < s.world.connections.length then
      some (s.update fun c => c.onConnection n fun x => { x with peerClosed := true })
    else none
  | .listens b, s => some (s.update fun c => { c with listening := b })
  | .calls task, s => some (s.update fun c => (c.call task).2)
  | .forgets id, s => some (s.update fun c => c.forget id)
  | .givesUp id, s => some (s.update fun c => c.abandon id)
  | .waits later, s =>
    if s.now ≤ later ∧
        (∀ a ∈ Client.system.tasks s.world, (Client.system.step s.now a s.world).isNone = true) ∧
        ∀ due ∈ Client.system.alarms s.world, later ≤ due then
      some { s with now := later }
    else none

/-- What a peer sends by a deed on connection `n`. -/
def sentOn (n : Nat) : Deed → List UInt8
  | .sends m bytes => if m = n then bytes else []
  | _ => []

def isSend : Deed → Bool
  | .sends .. => true
  | _ => false

end Deed

/-- All that the peer has sent on connection `n`. -/
def sent (ds : List Deed) (n : Nat) : List UInt8 := ds.flatMap (Deed.sentOn n)

/-- The same deeds, but for what the peers send: on each connection that differs, at any time, only
in heartbeats. -/
inductive Padded : List Deed → List Deed → Prop where
  | nil : Padded [] []
  | same {ds es : List Deed} (h : Padded ds es) (d : Deed) (hd : d.isSend = false) :
      Padded (ds ++ [d]) (es ++ [d])
  | sends {ds es : List Deed} (h : Padded ds es) (n : Nat) (bytes bytes' : List UInt8)
      (hs : Akin (sent ds n ++ bytes) (sent es n ++ bytes')) :
      Padded (ds ++ [.sends n bytes]) (es ++ [.sends n bytes'])

/-! ## What is seen -/

/-- A task did nothing but take a heartbeat. -/
def tookBeat (x : Incident (Timed Client) Deed) : Bool :=
  match x.event with
  | .acts a => x.before.world.hears a
  | _ => false

/-- The deeds of a history but those. -/
def deeds (h : List (Incident (Timed Client) Deed)) : List Deed :=
  (h.filter fun x => !tookBeat x).map Incident.event

/-- What there is to see after each of them, and when. -/
def sights (h : List (Incident (Timed Client) Deed)) : List (Nat × Client) :=
  (h.filter fun x => !tookBeat x).map fun x => (x.after.now, x.after.world.quiet)

section Seen

variable {h : List (Incident (Timed Client) Deed)} {x : Incident (Timed Client) Deed}
  {ds es : List Deed}

theorem seen_concat (hx : tookBeat x = false) :
    deeds (h ++ [x]) = deeds h ++ [x.event] ∧
      sights (h ++ [x]) = sights h ++ [(x.after.now, x.after.world.quiet)] := by
  simp [deeds, sights, List.filter_append, hx]

theorem seen_concat_of_beat (hx : tookBeat x = true) :
    deeds (h ++ [x]) = deeds h ∧ sights (h ++ [x]) = sights h := by
  simp [deeds, sights, List.filter_append, hx]

theorem deeds_append {h' : List (Incident (Timed Client) Deed)} (hd : deeds h' = []) :
    deeds (h ++ h') = deeds h := by
  have hnil : (h'.filter fun x => !tookBeat x) = [] := List.map_eq_nil_iff.1 hd
  simp [deeds, List.filter_append, hnil]

theorem sent_concat (ds : List Deed) (d : Deed) (n : Nat) :
    sent (ds ++ [d]) n = sent ds n ++ d.sentOn n :=
  flatMap_concat ds d _

theorem sent_concat_of_same (hd : d.isSend = false) : sent (ds ++ [d]) = sent ds := by
  funext n
  rw [sent_concat]
  cases d with
  | sends m bytes => cases hd
  | _ => exact List.append_nil _

theorem Padded.symm (h : Padded ds es) : Padded es ds := by
  induction h with
  | nil => exact .nil
  | same _ d hd ih => exact .same ih d hd
  | sends _ n bytes bytes' hs ih => exact .sends ih n bytes' bytes hs.symm

theorem Padded.eq_nil (h : Padded [] es) : es = [] := by
  generalize hds : ([] : List Deed) = ds at h
  cases h with
  | nil => rfl
  | same h d => exact absurd hds.symm (List.append_ne_nil_of_right_ne_nil _ (List.cons_ne_nil _ _))
  | sends h n bytes bytes' =>
    exact absurd hds.symm (List.append_ne_nil_of_right_ne_nil _ (List.cons_ne_nil _ _))

/-- The last deed is the same, or what the peer sends by it is akin. -/
theorem Padded.last (h : Padded (ds ++ [d]) es) : ∃ es₀ e, es = es₀ ++ [e] ∧ Padded ds es₀ ∧
    (d.isSend = false ∧ e = d ∨ ∃ n bytes bytes', d = .sends n bytes ∧ e = .sends n bytes' ∧
      Akin (sent ds n ++ bytes) (sent es₀ n ++ bytes')) := by
  generalize hall : ds ++ [d] = all at h
  cases h with
  | nil => exact absurd hall (List.append_ne_nil_of_right_ne_nil _ (List.cons_ne_nil _ _))
  | same h d' hd =>
    obtain ⟨rfl, rfl⟩ := List.append_singleton_inj.1 hall
    exact ⟨_, _, rfl, h, .inl ⟨hd, rfl⟩⟩
  | sends h n bytes bytes' hs =>
    obtain ⟨rfl, rfl⟩ := List.append_singleton_inj.1 hall
    exact ⟨_, _, rfl, h, .inr ⟨n, bytes, bytes', rfl, rfl, hs⟩⟩

end Seen

/-! ## Two histories -/

/-- Two histories that have shown the same so far, at the same time, and lead to twins. -/
structure Abreast (h h' : List (Incident (Timed Client) Deed)) (s s' : Timed Client) : Prop where
  sights : sights h' = sights h
  now : s'.now = s.now
  twins : Twins (sent (deeds h)) (sent (deeds h')) s.world s'.world

section Matching

variable {config : RelayConfig} {t t' : Nat → List UInt8} {s s₁ s' s₁' : Timed Client} {d : Deed}
  {h h' : List (Incident (Timed Client) Deed)}

theorem Abreast.symm (ha : Abreast h h' s s') : Abreast h' h s' s :=
  ⟨ha.sights.symm, ha.now.symm, ha.twins.symm⟩

/-- A heartbeat that is taken in one of the histories. -/
theorem Abreast.unbeaten (ha : Abreast h h' s s') (hs : d.happens s = some s₁)
    (hx : tookBeat ⟨s, d, s₁⟩ = true) : Abreast (h ++ [⟨s, d, s₁⟩]) h' s₁ s' := by
  obtain ⟨hdeeds, hsights⟩ := seen_concat_of_beat (h := h) hx
  cases d with
  | acts a =>
    obtain ⟨n, x, f, tail, hat, hin, hf, hstep⟩ :=
      step_of_hears (show s.world.hears a = true from hx) s.now
    rw [Deed.happens, hstep] at hs
    cases hs
    refine ⟨ha.sights.trans hsights.symm, ha.now, ?_⟩
    rw [hdeeds]
    exact ha.twins.unbeaten hat hin hf
  | _ => cases hx

/-- A deed on both sides that is no heartbeat. -/
theorem Twins.both (ht : Twins t t' s.world s'.world) (hnow : s'.now = s.now)
    (hd : d.isSend = false) (hs : d.happens s = some s₁) (hs' : d.happens s' = some s₁')
    (hx : tookBeat ⟨s, d, s₁⟩ = false) (hx' : tookBeat ⟨s', d, s₁'⟩ = false) :
    s₁'.now = s₁.now ∧ Twins t t' s₁.world s₁'.world := by
  cases d with
  | acts a =>
    obtain ⟨c, hc, rfl⟩ := Option.map_eq_some_iff.1 hs
    obtain ⟨c', hc', rfl⟩ := Option.map_eq_some_iff.1 hs'
    have hrel := ht.acts a s.now hx hx'
    rw [hc, ← hnow, hc'] at hrel
    cases hrel with
    | some hnext => exact ⟨hnow, hnext⟩
  | sends n bytes => cases hd
  | closes n =>
    simp only [Deed.happens, Option.ite_none_right_eq_some] at hs hs'
    obtain ⟨-, hs⟩ := hs
    obtain ⟨-, hs'⟩ := hs'
    cases hs
    cases hs'
    exact ⟨hnow, ht.onConnection n fun _ _ _ _ h => h.closes⟩
  | listens b =>
    cases hs
    cases hs'
    exact ⟨hnow, ht.apart (fun c => { c with listening := b }) fun _ _ => rfl⟩
  | calls task =>
    cases hs
    cases hs'
    exact ⟨hnow, ht.call task⟩
  | forgets id =>
    cases hs
    cases hs'
    exact ⟨hnow, ht.apart (fun c => c.forget id) fun _ _ => rfl⟩
  | givesUp id =>
    cases hs
    cases hs'
    exact ⟨hnow, ht.abandon id⟩
  | waits later =>
    simp only [Deed.happens, Option.ite_none_right_eq_some] at hs hs'
    obtain ⟨-, hs⟩ := hs
    obtain ⟨-, hs'⟩ := hs'
    cases hs
    cases hs'
    exact ⟨rfl, ht⟩

theorem Abreast.goes (ha : Abreast h h' s s') (hd : d.isSend = false)
    (hs : d.happens s = some s₁) (hs' : d.happens s' = some s₁')
    (hx : tookBeat ⟨s, d, s₁⟩ = false) (hx' : tookBeat ⟨s', d, s₁'⟩ = false) :
    Abreast (h ++ [⟨s, d, s₁⟩]) (h' ++ [⟨s', d, s₁'⟩]) s₁ s₁' := by
  obtain ⟨hnow, ht⟩ := ha.twins.both ha.now hd hs hs' hx hx'
  obtain ⟨hdeeds, hsights⟩ := seen_concat (h := h) hx
  obtain ⟨hdeeds', hsights'⟩ := seen_concat (h := h') hx'
  refine ⟨?_, hnow, ?_⟩
  · rw [hsights, hsights', ha.sights, hnow, ht.quiet]
  · rw [hdeeds, hdeeds', sent_concat_of_same hd, sent_concat_of_same hd]
    exact ht

theorem Abreast.sends (ha : Abreast h h' s s') {n : Nat} {bytes bytes' : List UInt8}
    (hs : (Deed.sends n bytes).happens s = some s₁)
    (hs' : (Deed.sends n bytes').happens s' = some s₁')
    (hakin : Akin (sent (deeds h) n ++ bytes) (sent (deeds h') n ++ bytes')) :
    Abreast (h ++ [⟨s, .sends n bytes, s₁⟩]) (h' ++ [⟨s', .sends n bytes', s₁'⟩]) s₁ s₁' := by
  obtain ⟨hdeeds, hsights⟩ := seen_concat (h := h) (Eq.refl (tookBeat ⟨s, .sends n bytes, s₁⟩))
  obtain ⟨hdeeds', hsights'⟩ := seen_concat (h := h') (Eq.refl (tookBeat ⟨s', .sends n bytes', s₁'⟩))
  simp only [Deed.happens, Option.ite_none_right_eq_some] at hs hs'
  obtain ⟨hn, hs⟩ := hs
  obtain ⟨hn', hs'⟩ := hs'
  cases hs
  cases hs'
  have ht : Twins (sent (deeds h ++ [.sends n bytes])) (sent (deeds h' ++ [.sends n bytes']))
      (s.world.onConnection n fun x => Peer.deliver x bytes)
      (s'.world.onConnection n fun x => Peer.deliver x bytes') := by
    refine ⟨ha.twins.rest, fun m => ?_⟩
    have hat := ha.twins.each m
    simp only [Client.onConnection, List.getElem?_modify, sent_concat, Deed.sentOn]
    by_cases hm : n = m
    · subst hm
      simp only [if_true]
      rw [List.getElem?_eq_getElem hn, List.getElem?_eq_getElem hn'] at hat ⊢
      cases hat with
      | present ht => exact .present (ht.deliver hakin)
    · simp only [if_neg hm, List.append_nil, id_map']
      exact hat
  refine ⟨?_, ha.now, by rw [hdeeds, hdeeds']; exact ht⟩
  rw [hsights, hsights', ha.sights]
  simp only [Timed.update, ha.now, ht.quiet]

/-- Histories of akin deeds go abreast, whenever the heartbeats are taken. -/
theorem abreast (hh : History Deed.happens ⟨0, .new config⟩ h s)
    (hh' : History Deed.happens ⟨0, .new config⟩ h' s') (hp : Padded (deeds h) (deeds h')) :
    Abreast h h' s s' := by
  induction hh generalizing h' s' with
  | nil =>
    -- the other history has nothing but heartbeats
    induction hh' with
    | nil => exact ⟨rfl, rfl, .new config⟩
    | @snoc h' s s₁ d hh' hs ih =>
      cases hx : tookBeat ⟨s, d, s₁⟩ with
      | true =>
        rw [(seen_concat_of_beat hx).1] at hp
        exact ((ih hp).symm.unbeaten hs hx).symm
      | false =>
        rw [(seen_concat hx).1] at hp
        exact absurd hp.eq_nil (List.append_ne_nil_of_right_ne_nil _ (List.cons_ne_nil _ _))
  | @snoc h s s₁ d hh hs ih =>
    cases hx : tookBeat ⟨s, d, s₁⟩ with
    | true =>
      rw [(seen_concat_of_beat hx).1] at hp
      exact (ih hh' hp).unbeaten hs hx
    | false =>
      induction hh' with
      | nil =>
        rw [(seen_concat hx).1] at hp
        exact absurd hp.symm.eq_nil (List.append_ne_nil_of_right_ne_nil _ (List.cons_ne_nil _ _))
      | @snoc h' s' s₁' d' hh' hs' ih' =>
        cases hx' : tookBeat ⟨s', d', s₁'⟩ with
        | true =>
          rw [(seen_concat_of_beat hx').1] at hp
          exact ((ih' hp).symm.unbeaten hs' hx').symm
        | false =>
          rw [(seen_concat hx).1, (seen_concat hx').1] at hp
          obtain ⟨es, e, heq, hp₀, he⟩ := hp.last
          obtain ⟨rfl, rfl⟩ := List.append_singleton_inj.1 heq
          have hbefore := ih hh' hp₀
          rcases he with ⟨hsend, rfl⟩ | ⟨n, bytes, bytes', rfl, rfl, hakin⟩
          · exact hbefore.goes hsend hs hs' hx hx'
          · exact hbefore.sends hs hs' hakin

/-! ## The other history -/

/-- All heartbeats that come next are taken. -/
theorem drained (s : Timed Client) : ∃ g s₁, History Deed.happens s g s₁ ∧ deeds g = [] ∧
    ∀ a, s₁.world.hears a = false := by
  induction hn : s.world.unread using Nat.strongRecOn generalizing s with
  | _ n ih =>
    by_cases hquiet : ∀ a, s.world.hears a = false
    · exact ⟨[], s, .nil, rfl, hquiet⟩
    · obtain ⟨a, ha⟩ := not_forall.1 hquiet
      have hears : s.world.hears a = true := by simpa using ha
      obtain ⟨m, x, f, tail, hx, hin, -, hstep⟩ := step_of_hears hears s.now
      obtain ⟨g, s₁, hg, hgd, hdry⟩ :=
        ih _ (hn ▸ unread_of_beat hx hin) { s with world := _ } rfl
      have hfirst : History Deed.happens s [⟨s, .acts a, _⟩] { s with world := _ } :=
        .snoc .nil (by rw [Deed.happens, hstep, Option.map_some])
      refine ⟨_, s₁, hfirst.trans hg, ?_, hdry⟩
      rw [deeds_append hgd]
      simp [deeds, tookBeat, hears]

/-- Where no task can go on, none takes a heartbeat. -/
theorem hears_of_stuck {c : Client} {now : Nat}
    (h : ∀ a ∈ Client.system.tasks c, (Client.system.step now a c).isNone = true)
    (a : Client.Actor) : c.hears a = false := by
  by_contra hne
  have hears : c.hears a = true := by simpa using hne
  obtain ⟨n, x, f, tail, -, -, -, hstep⟩ := step_of_hears hears now
  have hmem : a ∈ Client.system.tasks c := by
    cases a with
    | reader => exact List.mem_append_right _ (.head _)
    | call id =>
      obtain ⟨k, hk, -⟩ := (Option.any_eq_true _ _).1 hears
      have hid : k.id = id := by simpa using List.find?_some hk
      exact List.mem_append_left _ (List.mem_map.2 ⟨k, List.mem_of_find?_eq_some hk, by rw [hid]⟩)
  have hnone := h a hmem
  rw [hstep] at hnone
  cases hnone

theorem tasks_eq {c d : Client} (h : Twins t t' c d) :
    Client.system.tasks c = Client.system.tasks d ∧
      Client.system.alarms c = Client.system.alarms d := by
  simp only [Client.system, h.calls, and_self]

/-- What happens on one side can happen on the other one, where no heartbeat is left to be taken. -/
theorem Twins.can (ht : Twins t t' s.world s'.world) (hnow : s'.now = s.now)
    (hs : d.happens s = some s₁) (hx : tookBeat ⟨s, d, s₁⟩ = false)
    (hdry : ∀ a, s'.world.hears a = false) : ∃ s₁', d.happens s' = some s₁' := by
  cases d with
  | acts a =>
    obtain ⟨c, hc, rfl⟩ := Option.map_eq_some_iff.1 hs
    have hrel := ht.acts a s.now hx (hdry a)
    rw [hc, ← hnow] at hrel
    generalize hc' : Client.system.step s'.now a s'.world = r at hrel
    cases hrel with
    | @some _ c' => exact ⟨{ s' with world := c' }, by rw [Deed.happens, hc', Option.map_some]⟩
  | sends n bytes =>
    simp only [Deed.happens, Option.ite_none_right_eq_some] at hs
    exact ⟨_, if_pos (ht.length ▸ hs.1)⟩
  | closes n =>
    simp only [Deed.happens, Option.ite_none_right_eq_some] at hs
    exact ⟨_, if_pos (ht.length ▸ hs.1)⟩
  | waits later =>
    simp only [Deed.happens, Option.ite_none_right_eq_some] at hs
    obtain ⟨⟨hle, hstuck, hdue⟩, -⟩ := hs
    obtain ⟨htasks, halarms⟩ := tasks_eq ht
    refine ⟨_, if_pos ⟨hnow ▸ hle, fun a ha => ?_, halarms ▸ hdue⟩⟩
    -- what could go on here could go on there
    have hnone := hstuck a (htasks ▸ ha)
    have hrel := ht.acts a s.now (hears_of_stuck hstuck a) (hdry a)
    rw [Option.isNone_iff_eq_none.1 hnone, ← hnow] at hrel
    generalize Client.system.step s'.now a s'.world = r at hrel ⊢
    cases hrel
    rfl
  | _ => exact ⟨_, rfl⟩

/-- Akin deeds can happen as well. -/
theorem counterpart (hh : History Deed.happens ⟨0, .new config⟩ h s) {es : List Deed}
    (hp : Padded (deeds h) es) :
    ∃ h' s', History Deed.happens ⟨0, .new config⟩ h' s' ∧ deeds h' = es := by
  induction hh generalizing es with
  | nil => exact ⟨[], _, .nil, hp.eq_nil.symm⟩
  | @snoc h s s₁ d hh hs ih =>
    cases hx : tookBeat ⟨s, d, s₁⟩ with
    | true =>
      rw [(seen_concat_of_beat hx).1] at hp
      exact ih hp
    | false =>
      rw [(seen_concat hx).1] at hp
      obtain ⟨es₀, e, rfl, hp₀, he⟩ := hp.last
      obtain ⟨h', s', hh', hd'⟩ := ih hp₀
      obtain ⟨g, s'', hg, hgd, hdry⟩ := drained s'
      have hdeeds : deeds (h' ++ g) = es₀ := (deeds_append hgd).trans hd'
      have habreast := abreast hh (hh'.trans hg) (hdeeds ▸ hp₀)
      obtain ⟨s₁', hs'⟩ := habreast.twins.can habreast.now hs hx hdry
      have hlast (e : Deed) : ∀ s₁', tookBeat ⟨s'', e, s₁'⟩ = false := by
        intro s₁'
        cases e with
        | acts a => exact hdry a
        | _ => rfl
      have hend {e : Deed} {s₁' : Timed Client} (hs' : e.happens s'' = some s₁') :
          ∃ h' s', History Deed.happens ⟨0, .new config⟩ h' s' ∧ deeds h' = es₀ ++ [e] :=
        ⟨_, s₁', (hh'.trans hg).snoc hs', by rw [(seen_concat (hlast e s₁')).1, hdeeds]⟩
      rcases he with ⟨-, rfl⟩ | ⟨n, bytes, bytes', rfl, rfl, -⟩
      · exact hend hs'
      · simp only [Deed.happens, Option.ite_none_right_eq_some] at hs'
        exact hend (if_pos hs'.1)

end Matching

/-- Histories whose deeds differ only in the heartbeats of the peers show the same. For each of them
there is one with any such deeds. -/
theorem heartbeats_unseen (config : RelayConfig) :
    (∀ h s h' s', History Deed.happens ⟨0, .new config⟩ h s →
      History Deed.happens ⟨0, .new config⟩ h' s' → Padded (deeds h) (deeds h') →
        sights h' = sights h) ∧
    ∀ h s es, History Deed.happens ⟨0, .new config⟩ h s → Padded (deeds h) es →
      ∃ h' s', History Deed.happens ⟨0, .new config⟩ h' s' ∧ deeds h' = es :=
  ⟨fun _ _ _ _ hh hh' hp => (abreast hh hh' hp).sights, fun _ _ _ hh hp => counterpart hh hp⟩

/-! ## Between a request and its answer -/

theorem Padded.sames {ds es : List Deed} (h : Padded ds es) (l : List Deed)
    (hl : (l.all fun d => !d.isSend) = true) : Padded (ds ++ l) (es ++ l) := by
  induction l generalizing ds es with
  | nil => simpa using h
  | cons d rest ih =>
    rw [List.all_cons, Bool.and_eq_true, Bool.not_eq_true'] at hl
    have hrest := ih (h.same d hl.1) hl.2
    rwa [List.append_assoc, List.append_assoc] at hrest

theorem history_of_replay (config : RelayConfig) (ds : List Deed) (p : List (Nat × Client) → Bool)
    (h : (History.replay Deed.happens ds ⟨0, .new config⟩).any
      (fun r => (r.1.all fun x => !tookBeat x) && p (sights r.1)) = true) :
    ∃ h s, History Deed.happens ⟨0, .new config⟩ h s ∧ deeds h = ds ∧ p (sights h) = true := by
  obtain ⟨⟨h, s⟩, hr, hp⟩ := (Option.any_eq_true _ _).1 h
  obtain ⟨hall, hp⟩ := Bool.and_eq_true_iff.1 hp
  refine ⟨h, s, History.of_replay hr, ?_, hp⟩
  rw [deeds, List.filter_eq_self.2 (List.all_eq_true.1 hall), History.replay_events hr]

namespace Deed

def call : Deed := .acts (.call 0)

/-- A batch is to be sent, and the client logs on. -/
def opening : List Deed :=
  [.calls (.publish [⟨"CME", "ESZ4", "t", .epoch, .zero, .zero, none, []⟩] false), call, call, call]

/-- It is let in and asks for the listing. -/
def asking : List Deed := [call, call, call, call, .waits 1000]

/-- The answer is taken, and the trade is sent. -/
def ending : List Deed := [.acts .reader, call, call]

def welcome : Wire.Message := .logonResponse 8 1 "welcome"

def confirmation : Wire.Message := .subscriptionResponse 1 0 ""

def beat : List UInt8 := (Wire.Message.heartbeat 7).encode

/-- What happens where the peer sends these bytes: first the welcome, then something before the
answer, then the answer. -/
def course (first between last : List UInt8) : List Deed :=
  opening ++ [.sends 0 first] ++ asking ++ [.sends 0 between] ++ [.waits 2000] ++ [.sends 0 last] ++
    ending

/-- Without heartbeats. -/
def plain : List Deed := course welcome.encode [] confirmation.encode

/-- A heartbeat before the welcome, one and the beginning of another before the answer. -/
def beaten : List Deed :=
  course (beat ++ welcome.encode) (beat ++ beat.take 5) (beat.drop 5 ++ confirmation.encode)

theorem padded_plain : Padded plain beaten := by
  let b : Wire.Frame := (Wire.Message.heartbeat 7).frame
  let w : Wire.Frame := welcome.frame
  let a : Wire.Frame := confirmation.frame
  -- what was sent after each of the three deeds
  have hfirst : Akin (sent opening 0 ++ welcome.encode) (sent opening 0 ++ (beat ++ welcome.encode)) :=
    ⟨[w], [b, w], [], [], by decide +kernel, by decide +kernel, by decide, by decide, by decide,
      .inl rfl⟩
  have hbetween : Akin (sent (opening ++ [.sends 0 welcome.encode] ++ asking) 0 ++ [])
      (sent (opening ++ [.sends 0 (beat ++ welcome.encode)] ++ asking) 0 ++ (beat ++ beat.take 5)) :=
    ⟨[w], [b, w, b], [], beat.take 5, by decide +kernel, by decide +kernel, by decide, by decide,
      by decide, .inr ⟨.nil, b, by decide, 5, by decide, rfl⟩⟩
  have hlast : Akin (sent (opening ++ [.sends 0 welcome.encode] ++ asking ++ [.sends 0 []] ++
        [.waits 2000]) 0 ++ confirmation.encode)
      (sent (opening ++ [.sends 0 (beat ++ welcome.encode)] ++ asking ++
        [.sends 0 (beat ++ beat.take 5)] ++ [.waits 2000]) 0 ++
          (beat.drop 5 ++ confirmation.encode)) :=
    ⟨[w, a], [b, w, b, b, a], [], [], by decide +kernel, by decide +kernel, by decide, by decide,
      by decide, .inl rfl⟩
  exact ((((((Padded.nil.sames opening rfl).sends 0 _ _ hfirst).sames asking rfl).sends 0 _ _
    hbetween).sames [.waits 2000] rfl).sends 0 _ _ hlast).sames ending rfl

end Deed

open Deed in
/-- The batch is sent in both cases. -/
theorem heartbeats_unseen_between : ∃ h s h' s',
    History Deed.happens ⟨0, .new .default⟩ h s ∧ History Deed.happens ⟨0, .new .default⟩ h' s' ∧
      deeds h = plain ∧ deeds h' = beaten ∧ sights h' = sights h ∧
        ((sights h).getLast?.bind fun x => x.2.result? 0) = some (.ok ()) := by
  obtain ⟨h, s, hh, hd, hlast⟩ := history_of_replay .default plain
    (fun seen => decide ((seen.getLast?.bind fun x => x.2.result? 0) = some (.ok ())))
    (by decide +kernel)
  obtain ⟨hsame, hother⟩ := heartbeats_unseen .default
  obtain ⟨h', s', hh', hd'⟩ := hother h s beaten hh (hd ▸ padded_plain)
  refine ⟨h, s, h', s', hh, hh', hd, hd', hsame h s h' s' hh hh' ?_, of_decide_eq_true hlast⟩
  rw [hd, hd']
  exact padded_plain

end Relay
end MarketFeed
