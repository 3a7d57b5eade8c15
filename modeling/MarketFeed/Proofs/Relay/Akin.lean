import MarketFeed.Relay.Peer
import MarketFeed.Proofs.Relay.Logon
import MarketFeed.Proofs.Tasks.History

/-!
# MarketFeed.Proofs.Relay.Akin

Streams that differ only in the heartbeats between their frames, and the connections they arrive on.

* `Akin` — the same frames but for heartbeats, and then the same bytes; the last heartbeat may not
  have arrived as a whole.
* `Akin.unbeaten`, `Akin.untaken` — so do the rests when a heartbeat is taken off one of them, or
  the same frame off both. `Akin.comes` — where no heartbeat comes next, the same comes next.
* `Connection.quiet` — all there is to see of a connection but the heartbeats.
* `Twin` — two connections on which akin streams arrive.
-/

namespace MarketFeed
namespace Relay

open Wire (Frame StartsIncomplete)

instance (f : Frame) : Decidable (Beats f) :=
  inferInstanceAs (Decidable (f.code = 3 ∧ 4 ≤ f.payload.length ∧ f.size < 65536))

/-! ## Streams -/

/-- The bytes are the beginning of a heartbeat. -/
def Severed (bytes : List UInt8) : Prop := ∃ f, Beats f ∧ ∃ k, k < f.size ∧ bytes = f.bytes.take k

/-- The frames that are no heartbeats. -/
def telling (fs : List Frame) : List Frame := fs.filter fun f => !decide (Beats f)

/-- Two streams differ only in the heartbeats between their frames. -/
def Akin (bytes bytes' : List UInt8) : Prop :=
  ∃ fs fs' rest rest', bytes = fs.flatMap Frame.bytes ++ rest ∧
    bytes' = fs'.flatMap Frame.bytes ++ rest' ∧ (∀ f ∈ fs, f.size < 65536) ∧
    (∀ f ∈ fs', f.size < 65536) ∧ telling fs = telling fs' ∧
    (rest = rest' ∨ Severed rest ∧ Severed rest')

section Streams

variable {f : Frame} {fs : List Frame} {u v rest : List UInt8}

theorem Severed.nil : Severed [] :=
  ⟨⟨3, [0, 0, 0, 0]⟩, by decide, 0, by decide, rfl⟩

theorem Severed.next (h : Severed u) : Frame.next u = .incomplete := by
  obtain ⟨f, hf, k, hk, rfl⟩ := h
  exact Wire.next_take_bytes hf.2.2 hk

theorem next_flatMap (hf : f.size < 65536) :
    Frame.next ((f :: fs).flatMap Frame.bytes ++ rest) =
      .frame f (fs.flatMap Frame.bytes ++ rest) := by
  rw [List.flatMap_cons, List.append_assoc]
  exact Wire.next_bytes_append hf _

theorem telling_cons_of_beats (h : Beats f) : telling (f :: fs) = telling fs :=
  List.filter_cons_of_neg (by simp [h])

theorem telling_cons_of_not (h : ¬ Beats f) : telling (f :: fs) = f :: telling fs :=
  List.filter_cons_of_pos (by simp [h])

/-- Where no heartbeat comes next, the first frame tells. -/
theorem telling_of_decides (hsize : ∀ g ∈ fs, g.size < 65536)
    (h : Decides (fs.flatMap Frame.bytes ++ rest)) :
    fs = [] ∨ ∃ g gs, fs = g :: gs ∧ ¬ Beats g ∧ telling fs = g :: telling gs := by
  cases fs with
  | nil => exact .inl rfl
  | cons g gs =>
    have hg := h g _ (next_flatMap (hsize g (.head _)))
    exact .inr ⟨g, gs, rfl, hg, telling_cons_of_not hg⟩

theorem Akin.refl (u : List UInt8) : Akin u u :=
  ⟨[], [], u, u, rfl, rfl, nofun, nofun, rfl, .inl rfl⟩

theorem Akin.symm (h : Akin u v) : Akin v u := by
  obtain ⟨fs, fs', rest, rest', hu, hv, hsize, hsize', htell, hrest⟩ := h
  exact ⟨fs', fs, rest', rest, hv, hu, hsize', hsize, htell.symm, hrest.imp Eq.symm And.symm⟩

/-- A heartbeat is taken off one of the streams. -/
theorem Akin.unbeaten (h : Akin (f.bytes ++ u) v) (hf : Beats f) : Akin u v := by
  obtain ⟨fs, fs', rest, rest', hu, hv, hsize, hsize', htell, hrest⟩ := h
  have hnext := Wire.next_bytes_append hf.2.2 u
  rw [hu] at hnext
  cases fs with
  | cons g gs =>
    rw [next_flatMap (hsize g (.head _))] at hnext
    cases hnext
    rw [telling_cons_of_beats hf] at htell
    exact ⟨gs, fs', rest, rest', rfl, hv, fun i hi => hsize i (.tail _ hi), hsize', htell, hrest⟩
  | nil =>
    rw [List.flatMap_nil, List.nil_append] at hu hnext
    rcases hrest with rfl | ⟨hcut, -⟩
    · -- the other stream has the heartbeat as well
      refine ⟨[], fs' ++ [f], u, u, rfl, ?_, nofun, ?_, ?_, .inl rfl⟩
      · rw [hv, ← hu, flatMap_concat, List.append_assoc]
      · intro i hi
        rcases List.mem_append.1 hi with hi | hi
        · exact hsize' i hi
        · rw [List.mem_singleton.1 hi]
          exact hf.2.2
      · rw [htell, telling, telling, List.filter_append]
        simp [hf]
    · rw [hcut.next] at hnext
      cases hnext

/-- Where no heartbeat comes next in either, both streams start with the same frame, or they are the
same, or each has at most the beginning of a heartbeat. -/
theorem Akin.comes (h : Akin u v) (hu : Decides u) (hv : Decides v) :
    (∃ f u' v', f.size < 65536 ∧ ¬ Beats f ∧ u = f.bytes ++ u' ∧ v = f.bytes ++ v' ∧ Akin u' v') ∨
      u = v ∨ Severed u ∧ Severed v := by
  obtain ⟨fs, fs', rest, rest', rfl, rfl, hsize, hsize', htell, hrest⟩ := h
  rcases telling_of_decides hsize hu with rfl | ⟨g, gs, rfl, hg, hgt⟩ <;>
    rcases telling_of_decides hsize' hv with rfl | ⟨g', gs', rfl, hg', hgt'⟩
  · exact .inr hrest
  · rw [hgt'] at htell
    cases htell
  · rw [hgt] at htell
    cases htell
  · rw [hgt, hgt'] at htell
    injection htell with hhead htail
    subst hhead
    refine .inl ⟨g, gs.flatMap Frame.bytes ++ rest, gs'.flatMap Frame.bytes ++ rest',
      hsize g (.head _), hg, ?_, ?_, gs, gs', rest, rest', rfl, rfl,
      fun i hi => hsize i (.tail _ hi), fun i hi => hsize' i (.tail _ hi), htail, hrest⟩
    · rw [List.flatMap_cons, List.append_assoc]
    · rw [List.flatMap_cons, List.append_assoc]

/-- A frame that is no heartbeat is taken off both streams. -/
theorem Akin.untaken (h : Akin (f.bytes ++ u) (f.bytes ++ v)) (hsize : f.size < 65536)
    (hf : ¬ Beats f) : Akin u v := by
  rcases h.comes (decides_append hsize hf) (decides_append hsize hf) with
    ⟨g, u', v', hg, -, hu, hv, hrest⟩ | heq | ⟨hcut, -⟩
  · have hnext := Wire.next_bytes_append hsize u
    rw [hu, Wire.next_bytes_append hg] at hnext
    cases hnext
    have hnext' := Wire.next_bytes_append hsize v
    rw [hv, Wire.next_bytes_append hg] at hnext'
    cases hnext'
    exact hrest
  · rw [List.append_cancel_left heq]
    exact .refl v
  · have hnext := hcut.next
    rw [Wire.next_bytes_append hsize] at hnext
    cases hnext

theorem decides_of_undersized {size : Nat} {tail : List UInt8}
    (h : Frame.next u = .undersized size tail) : Decides u :=
  decides_of_ne fun f t hn => by
    rw [h] at hn
    cases hn

/-- Akin streams that both start with a header that is none are the same. -/
theorem Akin.eq_of_undersized {size size' : Nat} {tail tail' : List UInt8} (h : Akin u v)
    (hu : Frame.next u = .undersized size tail) (hv : Frame.next v = .undersized size' tail') :
    u = v := by
  rcases h.comes (decides_of_undersized hu) (decides_of_undersized hv) with
    ⟨f, u', v', hsize, -, rfl, -⟩ | heq | ⟨hcut, -⟩
  · rw [Wire.next_bytes_append hsize] at hu
    cases hu
  · exact heq
  · rw [hcut.next] at hu
    cases hu

theorem next_append_of_undersized {size : Nat} {tail : List UInt8}
    (h : Frame.next u = .undersized size tail) (more : List UInt8) :
    Frame.next (u ++ more) = .undersized size (tail ++ more) := by
  unfold Wire.Frame.next at h
  split at h
  · next s₀ s₁ c₀ c₁ rest =>
    simp only at h
    split at h
    · next hlow =>
      cases h
      simp only [List.cons_append, Frame.next, hlow, if_true]
    · split at h <;> cases h
  · cases h

end Streams

/-! ## Connections -/

/-- A heartbeat was taken. -/
def Exchange.isWholeBeat : Exchange → Bool
  | .took f => decide (Beats f)
  | .wrote _ => false

/-- All there is to see of a connection but what is on its way and the heartbeats that were taken. -/
def Connection.quiet (x : Connection) : Connection :=
  { x with incoming := [], log := x.log.filter fun e => !e.isWholeBeat }

/-- A heartbeat comes next. -/
def Connection.beating (x : Connection) : Bool :=
  match Frame.next x.incoming with
  | .frame f _ => decide (Beats f)
  | _ => false

/-- What the peer sends still arrives. -/
def Connection.carries (x : Connection) : Bool := !(x.clientClosed || x.peerClosed)

/-- Two connections on which so much has arrived. There is the same to see of both; what is on its
way is akin, and stays so while the whole streams do. -/
structure Twin (sent sent' : List UInt8) (x y : Connection) : Prop where
  quiet : x.quiet = y.quiet
  akin : Akin x.incoming y.incoming
  onward : x.carries = true → ∀ more more', Akin (sent ++ more) (sent' ++ more') →
    Akin (x.incoming ++ more) (y.incoming ++ more')

section Connections

variable {sent sent' : List UInt8} {x y : Connection}

theorem Connection.messages_quiet (x : Connection) : x.quiet.messages = x.messages := by
  simp only [messages, quiet, List.filterMap_filter]
  congr 1
  funext e
  cases e with
  | wrote m => rfl
  | took f => simp [Exchange.message?]

theorem Connection.decides_of_not_beating (h : x.beating = false) : Decides x.incoming := by
  intro f tail hn hb
  rw [beating, hn] at h
  exact of_decide_eq_false h hb

theorem quiet_eq_iff {x y : Connection} : x.quiet = y.quiet ↔
    (x.log.filter fun e => !e.isWholeBeat) = (y.log.filter fun e => !e.isWholeBeat) ∧
      x.peerClosed = y.peerClosed ∧ x.clientClosed = y.clientClosed ∧ x.lost = y.lost := by
  simp [Connection.quiet]

theorem Twin.peerClosed (h : Twin sent sent' x y) : x.peerClosed = y.peerClosed :=
  (quiet_eq_iff.1 h.quiet).2.1

theorem Twin.clientClosed (h : Twin sent sent' x y) : x.clientClosed = y.clientClosed :=
  (quiet_eq_iff.1 h.quiet).2.2.1

theorem Twin.lost (h : Twin sent sent' x y) : x.lost = y.lost :=
  (quiet_eq_iff.1 h.quiet).2.2.2

theorem Twin.carries (h : Twin sent sent' x y) : x.carries = y.carries := by
  rw [Connection.carries, Connection.carries, h.clientClosed, h.peerClosed]

theorem Twin.fresh : Twin [] [] Connection.fresh Connection.fresh :=
  ⟨rfl, .refl [], fun _ _ _ h => h⟩

theorem Twin.symm (h : Twin sent sent' x y) : Twin sent' sent y x :=
  ⟨h.quiet.symm, h.akin.symm, fun ho more more' ha =>
    (h.onward (h.carries.trans ho) more' more ha.symm).symm⟩

/-- The same is added to both logs. -/
theorem Twin.logs (h : Twin sent sent' x y) (e : Exchange) :
    ((x.log ++ [e]).filter fun e => !e.isWholeBeat) = (y.log ++ [e]).filter fun e => !e.isWholeBeat := by
  rw [List.filter_append, List.filter_append, (quiet_eq_iff.1 h.quiet).1]

theorem Twin.write (h : Twin sent sent' x y) (m : Wire.Message) :
    (∃ e, x.write m = .error e ∧ y.write m = .error e) ∨
      ∃ x' y', x.write m = .ok x' ∧ y.write m = .ok y' ∧ Twin sent sent' x' y' := by
  have hlogs := h.logs (.wrote m)
  unfold Connection.write
  rw [← h.peerClosed, ← h.lost]
  split
  · split
    · exact .inl ⟨_, rfl, rfl⟩
    · exact .inr ⟨_, _, rfl, rfl, quiet_eq_iff.2 ⟨hlogs, rfl, h.clientClosed, rfl⟩, h.akin,
        h.onward⟩
  · exact .inr ⟨_, _, rfl, rfl, quiet_eq_iff.2 ⟨hlogs, rfl, h.clientClosed, rfl⟩, h.akin, h.onward⟩

theorem Twin.close (h : Twin sent sent' x y) : Twin sent sent' x.close y.close := by
  obtain ⟨hlog, hp, -, hl⟩ := quiet_eq_iff.1 h.quiet
  exact ⟨quiet_eq_iff.2 ⟨hlog, hp, rfl, hl⟩, h.akin, nofun⟩

theorem Twin.closes (h : Twin sent sent' x y) :
    Twin sent sent' { x with peerClosed := true } { y with peerClosed := true } := by
  obtain ⟨hlog, -, hc, hl⟩ := quiet_eq_iff.1 h.quiet
  refine ⟨quiet_eq_iff.2 ⟨hlog, rfl, hc, hl⟩, h.akin, fun ho => ?_⟩
  simp [Connection.carries] at ho

theorem Twin.deliver (h : Twin sent sent' x y) {bytes bytes' : List UInt8}
    (ha : Akin (sent ++ bytes) (sent' ++ bytes')) :
    Twin (sent ++ bytes) (sent' ++ bytes') (Peer.deliver x bytes) (Peer.deliver y bytes') := by
  have hshut : (x.clientClosed || x.peerClosed) = (y.clientClosed || y.peerClosed) := by
    rw [h.clientClosed, h.peerClosed]
  unfold Peer.deliver
  by_cases hx : (x.clientClosed || x.peerClosed) = true
  · rw [if_pos hx, if_pos (hshut ▸ hx)]
    refine ⟨h.quiet, h.akin, fun ho => ?_⟩
    rw [Connection.carries, hx] at ho
    cases ho
  · rw [if_neg hx, if_neg (hshut ▸ hx)]
    have ho : x.carries = true := by rw [Connection.carries, Bool.eq_false_iff.2 hx]; rfl
    refine ⟨quiet_eq_iff.2 (quiet_eq_iff.1 h.quiet), h.onward ho _ _ ha, fun _ more more' hmore => ?_⟩
    simp only [List.append_assoc] at hmore ⊢
    exact h.onward ho _ _ hmore

/-- What comes next where that is no heartbeat is taken off both connections. -/
theorem Twin.untaken (h : Twin sent sent' x y) {f : Frame} {tail tail' : List UInt8}
    (hx : Frame.next x.incoming = .frame f tail) (hy : Frame.next y.incoming = .frame f tail')
    (hf : ¬ Beats f) : Twin sent sent' { x with incoming := tail, log := x.log ++ [.took f] }
      { y with incoming := tail', log := y.log ++ [.took f] } := by
  have hsize := next_size hx
  have hu := Wire.next_cases x.incoming
  have hv := Wire.next_cases y.incoming
  rw [hx] at hu
  rw [hy] at hv
  simp only at hu hv
  refine ⟨quiet_eq_iff.2 ⟨h.logs (.took f), (quiet_eq_iff.1 h.quiet).2⟩, ?_, fun ho more more' ha => ?_⟩
  · have hakin := h.akin
    rw [hu, hv] at hakin
    exact hakin.untaken hsize hf
  · have hakin := h.onward ho more more' ha
    rw [hu, hv, List.append_assoc, List.append_assoc] at hakin
    exact hakin.untaken hsize hf

/-- Where no heartbeat comes next, the same arrives on both connections. -/
theorem Twin.next (h : Twin sent sent' x y) (hx : x.beating = false) (hy : y.beating = false) :
    x.next.1 = y.next.1 ∧ Twin sent sent' x.next.2 y.next.2 := by
  have hdx := Connection.decides_of_not_beating hx
  have hframe {f : Frame} {tail tail' : List UInt8} (hnx : Frame.next x.incoming = .frame f tail)
      (hny : Frame.next y.incoming = .frame f tail') :
      x.next.1 = y.next.1 ∧ Twin sent sent' x.next.2 y.next.2 := by
    simp only [Connection.next, hnx, hny]
    exact ⟨trivial, h.untaken hnx hny (hdx f tail hnx)⟩
  have hnothing (hnx : Frame.next x.incoming = .incomplete)
      (hny : Frame.next y.incoming = .incomplete) :
      x.next.1 = y.next.1 ∧ Twin sent sent' x.next.2 y.next.2 := by
    simp only [Connection.next, hnx, hny, ← h.peerClosed]
    split
    · next hp =>
      obtain ⟨hlog, -, hc, hl⟩ := quiet_eq_iff.1 h.quiet
      refine ⟨rfl, quiet_eq_iff.2 ⟨hlog, rfl, hc, hl⟩, .refl [], fun ho => ?_⟩
      simp only [Connection.carries, hp, Bool.or_true] at ho
      cases ho
    · exact ⟨rfl, h⟩
  rcases h.akin.comes hdx (Connection.decides_of_not_beating hy) with
    ⟨f, u, v, hsize, -, hu, hv, -⟩ | heq | ⟨hu, hv⟩
  · exact hframe (hu ▸ Wire.next_bytes_append hsize u) (hv ▸ Wire.next_bytes_append hsize v)
  · cases hn : Frame.next x.incoming with
    | frame f tail => exact hframe hn (heq ▸ hn)
    | incomplete => exact hnothing hn (heq ▸ hn)
    | undersized size tail =>
      simp only [Connection.next, hn, heq ▸ hn]
      refine ⟨trivial, quiet_eq_iff.2 (quiet_eq_iff.1 h.quiet), .refl tail,
        fun ho more more' ha => ?_⟩
      -- so whatever follows is the same
      have hmore := h.onward ho more more' ha
      have hsame := hmore.eq_of_undersized (next_append_of_undersized hn more)
        (next_append_of_undersized (heq ▸ hn) more')
      rw [heq] at hsame
      rw [List.append_cancel_left hsame]
      exact .refl _
  · exact hnothing hu.next hv.next

/-- A heartbeat is taken off one of the connections. -/
theorem Twin.unbeaten (h : Twin sent sent' x y) {f : Frame} {tail : List UInt8}
    (hin : x.incoming = f.bytes ++ tail) (hf : Beats f) :
    Twin sent sent' { x with incoming := tail, log := x.log ++ [.took f] } y := by
  obtain ⟨hlog, hrest⟩ := quiet_eq_iff.1 h.quiet
  refine ⟨quiet_eq_iff.2 ⟨?_, hrest⟩, ?_, fun ho more more' ha => ?_⟩
  · rw [← hlog, List.filter_append]
    simp [Exchange.isWholeBeat, hf]
  · have hakin := h.akin
    rw [hin] at hakin
    exact hakin.unbeaten hf
  · have hakin := h.onward ho more more' ha
    rw [hin, List.append_assoc] at hakin
    exact hakin.unbeaten hf

end Connections

end Relay
end MarketFeed
