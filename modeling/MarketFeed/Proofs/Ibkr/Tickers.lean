import Mathlib.Data.List.Infix
import MarketFeed.Proofs.Ibkr.Steps

/-!
# MarketFeed.Proofs.Ibkr.Tickers

The ticker events of a gateway, and what of them is for a contract.

* `Broadcast.Grows`, `Gateway.Grows` — what a gateway may do with its events: it publishes, or it
  ends them and goes on with others.
* `Lawful`, `grows_of_happens` — a history in which the gateway does nothing else.
* `forwarded` — the tickers of a contract from one position to another, but for the batches that
  were lost.
* `Forwarded` — a receiver has passed these on. `Forwarded.hears`, `Forwarded.lags`: it goes on.
-/

namespace MarketFeed

/-- A broadcast at a later time: more was sent, if it had not ended. -/
structure Broadcast.Grows {α : Type} (b b' : Broadcast α) : Prop where
  capacity : b'.capacity = b.capacity
  sent : b.sent <+: b'.sent
  ended : b.ended = true → b'.sent = b.sent ∧ b'.ended = true

namespace Broadcast.Grows

variable {α : Type} {b b' b'' : Broadcast α}

instance [DecidableEq α] (b b' : Broadcast α) : Decidable (b.Grows b') :=
  decidable_of_iff (b'.capacity = b.capacity ∧ b.sent <+: b'.sent ∧
      (b.ended = true → b'.sent = b.sent ∧ b'.ended = true))
    ⟨fun ⟨hcapacity, hsent, hended⟩ => ⟨hcapacity, hsent, hended⟩,
      fun h => ⟨h.capacity, h.sent, h.ended⟩⟩

theorem refl (b : Broadcast α) : b.Grows b :=
  ⟨rfl, List.prefix_refl _, fun hend => ⟨rfl, hend⟩⟩

theorem trans (h : b.Grows b') (h' : b'.Grows b'') : b.Grows b'' where
  capacity := h'.capacity.trans h.capacity
  sent := h.sent.trans h'.sent
  ended hend := by
    obtain ⟨hsent, hend'⟩ := h.ended hend
    obtain ⟨hsent', hend''⟩ := h'.ended hend'
    exact ⟨hsent'.trans hsent, hend''⟩

theorem send (hopen : b.ended = false) (a : α) : b.Grows (b.send a) :=
  ⟨rfl, List.prefix_append _ _, fun hend => Bool.noConfusion (hopen.symm.trans hend)⟩

theorem finish (b : Broadcast α) : b.Grows { b with ended := true } :=
  ⟨rfl, List.prefix_refl _, fun _ => ⟨rfl, rfl⟩⟩

theorem length_le (h : b.Grows b') : b.sent.length ≤ b'.sent.length := h.sent.length_le

theorem eq_of_ended (h : b.Grows b') (hend : b.ended = true) : b' = b := by
  obtain ⟨capacity, sent, ended⟩ := b
  obtain ⟨capacity', sent', ended'⟩ := b'
  obtain ⟨hsent, hend'⟩ := h.ended hend
  exact (Broadcast.mk.injEq ..).mpr ⟨h.capacity, hsent, hend'.trans hend.symm⟩

end Broadcast.Grows

namespace Ibkr

/-! ## The events of a gateway -/

/-- The events of a gateway at a later time: there may be further ones, and those that were there
have grown. -/
def Gateway.Grows (g g' : Gateway) : Prop :=
  ∀ (n : Nat) (b : Broadcast (List Ticker)), g.events[n]? = some b →
    ∃ b', g'.events[n]? = some b' ∧ b.Grows b'

section Events

variable {g g' g'' : Gateway} {n p : Nat} {b : Broadcast (List Ticker)} {batch : List Ticker}

namespace Gateway.Grows

theorem iff_zip : g.Grows g' ↔
    g.events.length ≤ g'.events.length ∧ ∀ p ∈ g.events.zip g'.events, p.1.Grows p.2 := by
  constructor
  · refine fun h => ⟨Nat.le_of_not_lt fun hlt => ?_, fun p hp => ?_⟩
    · obtain ⟨b', hb', -⟩ := h g'.events.length _ (List.getElem?_eq_getElem hlt)
      simp at hb'
    · obtain ⟨n, hn⟩ := List.mem_iff_getElem?.1 hp
      obtain ⟨hb, hb'⟩ := List.getElem?_zip_eq_some.1 hn
      obtain ⟨b', hb₁, hgrows⟩ := h n p.1 hb
      cases hb'.symm.trans hb₁
      exact hgrows
  · rintro ⟨hle, hzip⟩ n b hb
    have hlt : n < g'.events.length := Nat.lt_of_lt_of_le (List.getElem?_eq_some_iff.1 hb).1 hle
    have hb' := List.getElem?_eq_getElem hlt
    exact ⟨_, hb', hzip (b, _) (List.mem_of_getElem? (List.getElem?_zip_eq_some.2 ⟨hb, hb'⟩))⟩

instance (g g' : Gateway) : Decidable (g.Grows g') := decidable_of_iff _ iff_zip.symm

theorem of_eq (h : g'.events = g.events) : g.Grows g' :=
  fun _ b hb => ⟨b, h ▸ hb, .refl b⟩

theorem trans (h : g.Grows g') (h' : g'.Grows g'') : g.Grows g'' := by
  intro n b hb
  obtain ⟨b', hb', hgrows⟩ := h n b hb
  obtain ⟨b'', hb'', hgrows'⟩ := h' n b' hb'
  exact ⟨b'', hb'', hgrows.trans hgrows'⟩

/-- There are always events to receive. -/
theorem ne_nil (h : g.Grows g') (hne : g.events ≠ []) : g'.events ≠ [] := by
  obtain ⟨b, hb⟩ : ∃ b, g.events[0]? = some b :=
    ⟨_, List.getElem?_eq_getElem (List.length_pos_iff.2 hne)⟩
  obtain ⟨b', hb', -⟩ := h 0 b hb
  rintro hnil
  rw [hnil] at hb'
  cases hb'

theorem publish (hopen : ∀ b, g.events.getLast? = some b → b.ended = false) :
    g.Grows (g.publish batch) := by
  intro n b hb
  simp only [Gateway.publish, List.getElem?_modify, hb, Option.map_eq_map, Option.map_some,
    Option.some.injEq, exists_eq_left']
  split
  · rename_i hlast
    refine .send (hopen b ?_) batch
    rw [List.getLast?_eq_getElem?, hlast, hb]
  · exact .refl b

theorem endEvents (g : Gateway) : g.Grows g.endEvents := by
  intro n b hb
  refine ⟨{ b with ended := true }, ?_, .finish b⟩
  have hlt : n < g.events.length := (List.getElem?_eq_some_iff.1 hb).1
  rw [Gateway.endEvents, List.getElem?_append_left (by rwa [List.length_map]), List.getElem?_map,
    hb]
  rfl

end Gateway.Grows

theorem subscribe_congr (h : g'.events = g.events) : g'.subscribe = g.subscribe := by
  rw [Gateway.subscribe, Gateway.subscribe, h]

/-- Who receives from now on is behind all that was sent. -/
theorem subscribe_position (hne : g.events ≠ []) :
    ∃ b, g.events[g.subscribe.source]? = some b ∧ g.subscribe.position = b.sent.length := by
  refine ⟨g.events.getLast hne, ?_, ?_⟩
  · rw [Gateway.subscribe, ← List.getLast?_eq_getElem?, List.getLast?_eq_getLast_of_ne_nil hne]
  · rw [Gateway.subscribe, List.getLast?_eq_getLast_of_ne_nil hne]
    rfl

theorem hear_eq (hb : g.events[n]? = some b) : g.hear ⟨n, p⟩ = b.next p := by
  rw [Gateway.hear, hb]

theorem next_eq_item (h : b.next p = .item batch) : b.sent[p]? = some batch := by
  unfold Broadcast.next at h
  split at h
  · cases h
  · split at h
    · rename_i hget
      cases h
      exact hget
    · split at h <;> cases h

theorem next_eq_lagged {p' : Nat} (h : b.next p = .lagged p') :
    p + b.capacity < b.sent.length ∧ p' = b.sent.length - b.capacity := by
  unfold Broadcast.next at h
  split at h
  · rename_i hlt
    cases h
    exact ⟨hlt, rfl⟩
  · split at h
    · cases h
    · split at h <;> cases h

theorem next_eq_ended (h : b.next p = .ended) : b.ended = true ∧ b.sent.length ≤ p := by
  unfold Broadcast.next at h
  split at h
  · cases h
  · split at h
    · cases h
    · rename_i hnone
      split at h
      · rename_i hend
        exact ⟨hend, List.getElem?_eq_none_iff.1 hnone⟩
      · cases h

/-- A receiver that is not behind the last batch finds something. -/
theorem next_ne_empty (hlt : p < b.sent.length) : b.next p ≠ .empty := by
  unfold Broadcast.next
  split
  · nofun
  · rw [List.getElem?_eq_getElem hlt]
    nofun

end Events

/-! ## Histories -/

/-- The gateway changes by itself only in that its events grow. -/
def Lawful (h : List (Incident (Timed Connector) Event)) : Prop :=
  ∀ x ∈ h, ∀ g, x.event = .change g → x.before.world.gateway.Grows g

instance (h : List (Incident (Timed Connector) Event)) : Decidable (Lawful h) :=
  decidable_of_iff (∀ x ∈ h,
      (match x.event with
        | .change g => decide (x.before.world.gateway.Grows g)
        | _ => true) = true) <| by
    refine forall₂_congr fun x _ => ?_
    cases x.event <;> simp

section Histories

variable {c c' : Connector} {now id : Nat} {t t' : Timed Connector} {e : Event} {s s' : Stream}
  {k k' : Call} {h : List (Incident (Timed Connector) Event)}

theorem lawful_concat {x : Incident (Timed Connector) Event} : Lawful (h ++ [x]) ↔
    Lawful h ∧ ∀ g, x.event = .change g → x.before.world.gateway.Grows g := by
  simp only [Lawful, List.mem_append, List.mem_singleton, or_imp, forall_and, forall_eq]

theorem DialGoes.events {d : Dial} {r : Connector.Dialled} (h : DialGoes now c id d r c') :
    c'.gateway.events = c.gateway.events := by
  cases h <;> rfl

theorem StreamGoes.events (h : StreamGoes now c s s' c') :
    c'.gateway.events = c.gateway.events := by
  cases h with
  | dials _ hd | connects _ hd | refused _ hd => exact hd.events
  | _ => rfl

theorem CallGoes.events (h : CallGoes now c k k' c') : c'.gateway.events = c.gateway.events := by
  cases h with
  | dials _ hd | connects _ hd | queues _ hd | refused _ hd => exact hd.events
  | _ => rfl

/-- Only the gateway itself adds to its events. -/
theorem grows_of_happens (he : happens e t = some t')
    (hlaw : ∀ g, e = .change g → t.world.gateway.Grows g) :
    t.world.gateway.Grows t'.world.gateway := by
  cases happening_of_happens he with
  | goes hs hg => exact .of_eq hg.events
  | notices hs hn => exact .of_eq (by cases hn <;> rfl)
  | calls hk hg => exact .of_eq hg.events
  | changes => exact hlaw _ rfl
  | _ => exact .of_eq rfl

end Histories

/-! ## What is forwarded -/

/-- The tickers of a batch that are of a contract. -/
def ofContract (contract : Contract) (batch : List Ticker) : List Ticker :=
  batch.filter fun t => t.contract.key = contract.key

/-- The tickers of a contract in the batches from one position up to another, but for the batches
that were lost. -/
def forwarded (contract : Contract) (sent : List (List Ticker)) (start stop : Nat)
    (lost : List Nat) : List Ticker :=
  ((List.range' start (stop - start)).filter (· ∉ lost)).flatMap fun q =>
    ofContract contract (sent[q]?.getD [])

/-- A receiver that began at one position and has come to another has passed on the tickers of a
contract; batches were lost only where the broadcast did not hold them any more. -/
structure Forwarded (contract : Contract) (b : Broadcast (List Ticker)) (start stop : Nat)
    (lost : List Nat) (l : List Ticker) : Prop where
  start_le : start ≤ stop
  stop_le : stop ≤ b.sent.length
  overtaken : ∀ q ∈ lost, start ≤ q ∧ q < stop ∧ q + b.capacity < b.sent.length
  eq : l = forwarded contract b.sent start stop lost

section Forwarding

variable {contract : Contract} {b b' : Broadcast (List Ticker)} {start stop : Nat}
  {lost : List Nat} {l : List Ticker} {sent : List (List Ticker)}

theorem forwarded_self (contract : Contract) (sent : List (List Ticker)) (p : Nat)
    (lost : List Nat) : forwarded contract sent p p lost = [] := by
  rw [forwarded, Nat.sub_self]
  rfl

/-- Where nothing was lost, these are the tickers of all batches. -/
theorem forwarded_all (hle : stop ≤ sent.length) : forwarded contract sent start stop [] =
    ((sent.take stop).drop start).flatMap (ofContract contract) := by
  have hbatches : (sent.take stop).drop start =
      (List.range' start (stop - start)).map fun q => sent[q]?.getD [] := by
    refine List.ext_getElem (by simp; omega) fun i hi hi' => ?_
    have hlt : start + i < sent.length := by
      simp only [List.length_map, List.length_range'] at hi'
      omega
    simp [hlt]
  simp [forwarded, hbatches, List.flatMap_map]

namespace Forwarded

theorem begins (contract : Contract) (b : Broadcast (List Ticker)) :
    Forwarded contract b b.sent.length b.sent.length [] [] where
  start_le := Nat.le_refl _
  stop_le := Nat.le_refl _
  overtaken := nofun
  eq := (forwarded_self ..).symm

/-- What more is sent does not matter for what has been passed on. -/
theorem grows (h : Forwarded contract b start stop lost l) (hg : b.Grows b') :
    Forwarded contract b' start stop lost l where
  start_le := h.start_le
  stop_le := Nat.le_trans h.stop_le hg.length_le
  overtaken q hq := by
    obtain ⟨hstart, hstop, hover⟩ := h.overtaken q hq
    have hle := hg.length_le
    rw [hg.capacity]
    exact ⟨hstart, hstop, by omega⟩
  eq := by
    rw [h.eq, forwarded, forwarded]
    refine List.flatMap_congr fun q hq => ?_
    have hlt : q < b.sent.length := by
      have hrange := List.mem_range'_1.1 (List.mem_filter.1 hq).1
      have hle := h.stop_le
      omega
    rw [List.prefix_iff_getElem?.1 hg.sent q hlt, List.getElem?_eq_getElem hlt]

/-- The next batch is passed on. -/
theorem hears {batch : List Ticker} (h : Forwarded contract b start stop lost l)
    (hbatch : b.sent[stop]? = some batch) :
    Forwarded contract b start (stop + 1) lost (l ++ ofContract contract batch) where
  start_le := Nat.le_succ_of_le h.start_le
  stop_le := (List.getElem?_eq_some_iff.1 hbatch).1
  overtaken q hq := by
    obtain ⟨hstart, hstop, hover⟩ := h.overtaken q hq
    exact ⟨hstart, by omega, hover⟩
  eq := by
    have hle := h.start_le
    have hrange : List.range' start (stop + 1 - start) =
        List.range' start (stop - start) ++ [stop] := by
      rw [Nat.sub_add_comm hle, List.range'_1_concat, Nat.add_sub_cancel' hle]
    have hkept : stop ∉ lost := fun hmem => by
      have := (h.overtaken stop hmem).2.1
      omega
    rw [h.eq, forwarded, forwarded, hrange, List.filter_append, List.flatMap_append]
    simp [hkept, hbatch]

/-- What the broadcast does not hold any more is lost; it goes on with the first batch that is
held. -/
theorem lags (h : Forwarded contract b start stop lost l)
    (hlt : stop + b.capacity < b.sent.length) :
    Forwarded contract b start (b.sent.length - b.capacity)
      (lost ++ List.range' stop (b.sent.length - b.capacity - stop)) l where
  start_le := by
    have hle := h.start_le
    omega
  stop_le := Nat.sub_le _ _
  overtaken q hq := by
    have hle := h.start_le
    rcases List.mem_append.1 hq with hq | hq
    · obtain ⟨hstart, hstop, hover⟩ := h.overtaken q hq
      exact ⟨hstart, by omega, hover⟩
    · have hrange := List.mem_range'_1.1 hq
      exact ⟨by omega, by omega, by omega⟩
  eq := by
    have hle := h.start_le
    generalize hnext : b.sent.length - b.capacity = next
    have hrange : List.range' start (next - start) =
        List.range' start (stop - start) ++ List.range' stop (next - stop) := by
      have happend := List.range'_append_1 (s := start) (m := stop - start) (n := next - stop)
      rw [Nat.add_sub_cancel' hle] at happend
      rw [happend]
      congr 1
      omega
    -- of the batches before, the same are lost; of those that come now, all are
    have hbefore : (List.range' start (stop - start)).filter
          (· ∉ lost ++ List.range' stop (next - stop)) =
        (List.range' start (stop - start)).filter (· ∉ lost) := by
      refine List.filter_congr fun q hq => ?_
      have hlt := (List.mem_range'_1.1 hq).2
      have hout : q ∉ List.range' stop (next - stop) := fun hmem => by
        have := (List.mem_range'_1.1 hmem).1
        omega
      simp [hout]
    have hafter : (List.range' stop (next - stop)).filter
        (· ∉ lost ++ List.range' stop (next - stop)) = [] := by
      refine List.filter_eq_nil_iff.2 fun q hq => ?_
      simp [hq]
    rw [h.eq, forwarded, forwarded, hrange, List.filter_append, hbefore, hafter, List.append_nil]

end Forwarded
end Forwarding

end Ibkr
end MarketFeed
