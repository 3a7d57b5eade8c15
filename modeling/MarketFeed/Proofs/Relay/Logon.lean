import MarketFeed.Proofs.Relay.Steps
import MarketFeed.Proofs.Wire.Canonical

/-!
# MarketFeed.Proofs.Relay.Logon

What the bytes of a peer make of a logon.

* `Beats`, `Accepts`, `Denies` — a heartbeat with all its fields, a frame that accepts the logon, and
  how it fails by the first bytes that are neither. All are told by the bytes alone.
* `judgeLogon_spec` — what a call makes of one frame.
* `Hears`, `hears_of_logOn` — so it waits, passes over a heartbeat, is let in, or fails.
* `Reveals`, `Reveals.unique` — all that the peer has sent tells one outcome, that of `verdict`
  behind the heartbeats.
-/

namespace MarketFeed
namespace Relay

open Wire (Frame Message shape? StartsUndersized StartsIncomplete)

/-- A heartbeat with all its fields. -/
def Beats (f : Frame) : Prop := f.code = 3 ∧ 4 ≤ f.payload.length ∧ f.size < 65536

/-- The result in the payload of an answer to a logon, and its text. -/
def logonResult (payload : List UInt8) : Nat := Wire.ofLittleEndian ((payload.drop 2).take 2)

def logonText (payload : List UInt8) : String := Wire.ofFixedText ((payload.drop 4).take 64)

/-- A frame accepts the logon. -/
def Accepts (f : Frame) : Prop :=
  f.code = 2 ∧ 68 ≤ f.payload.length ∧ logonResult f.payload = 1 ∧ f.size < 65536

/-- How bytes that start with no heartbeat make a logon fail, if the peer has closed behind them or
not. -/
inductive Denies (closed : Bool) : List UInt8 → RelayError → Prop where
  | rejected (f : Frame) (tail : List UInt8) (hsize : f.size < 65536) (hc : f.code = 2)
      (hlen : 68 ≤ f.payload.length) (hr : logonResult f.payload ≠ 1) :
      Denies closed (f.bytes ++ tail) (.logonRejected (logonText f.payload))
  | unexpected (f : Frame) (tail : List UInt8) (hsize : f.size < 65536) (hr : f.code ≠ 2)
      (hb : f.code ≠ 3) (hlen : ∀ s, shape? f.code = some s → s.width ≤ f.payload.length) :
      Denies closed (f.bytes ++ tail) (.unexpectedMessage f.code)
  | short (f : Frame) (tail : List UInt8) (s : Wire.Shape) (need : Nat) (hsize : f.size < 65536)
      (hs : shape? f.code = some s) (hlen : f.payload.length < s.width)
      (hneed : s.ends.find? (f.payload.length < ·) = some need) :
      Denies closed (f.bytes ++ tail) (.malformed (.shortPayload f.code need f.payload.length))
  | undersized (bytes : List UInt8) (size : Nat) (h : StartsUndersized size bytes) :
      Denies closed bytes (.malformed (.shortFrame size))
  | ended (bytes : List UInt8) (hc : closed = true) (h : StartsIncomplete bytes) :
      Denies closed bytes (.io .endOfInput)

/-! ## One frame -/

section Frames

variable {f : Frame}

theorem shape?_of_kind (k : Wire.MessageKind) : shape? k.code = some k.shape := by
  cases k <;> rfl

/-- A frame of a known type is a message of that kind, or its payload is too short. -/
theorem decode_of_kind {k : Wire.MessageKind} (hc : k.code = f.code) :
    (k.shape.width ≤ f.payload.length ∧ ∃ r, Wire.readRow 0 k.layout f.payload = .ok r ∧
      Message.decode f = .ok (Message.ofRow k r)) ∨
    ∃ need, f.payload.length < k.shape.width ∧
      k.shape.ends.find? (f.payload.length < ·) = some need ∧
      Message.decode f = .error (.malformed (.shortPayload f.code need f.payload.length)) := by
  obtain ⟨code, payload⟩ := f
  subst hc
  rw [k.width_shape]
  rcases Nat.lt_or_ge payload.length k.layout.width with hlt | hle
  · obtain ⟨need, hneed, hd⟩ := Message.decode_of_lt hlt
    exact .inr ⟨need, hlt, hneed, hd⟩
  · obtain ⟨r, hr, hd⟩ := Message.decode_of_le hle
    exact .inl ⟨hle, r, hr, hd⟩

theorem decode_of_unknown (h : Wire.MessageKind.ofCode? f.code = none) :
    Message.decode f = .error (.unexpected f.code) ∧ shape? f.code = none := by
  simp only [Message.decode, Wire.shape?_eq, h, Option.map_none, and_self]

/-- The second and the third field of an answer to a logon. -/
theorem decode_logonResponse (hc : f.code = 2) (hlen : 68 ≤ f.payload.length) :
    ∃ v result, Message.decode f = .ok (.logonResponse v result (logonText f.payload)) ∧
      (result = logonAccepted ↔ logonResult f.payload = 1) := by
  obtain ⟨code, payload⟩ := f
  subst hc
  simp only at hlen ⊢
  have h₁ : ¬ payload.length < 2 := by omega
  have h₂ : ¬ (payload.drop 2).length < 2 := by rw [List.length_drop]; omega
  have h₃ : ¬ ((payload.drop 2).drop 2).length < 64 := by
    rw [List.length_drop, List.length_drop]
    omega
  have hr : Wire.readRow 0 Wire.MessageKind.logonResponse.layout payload =
      .ok (UInt16.ofNat (Wire.ofLittleEndian (payload.take 2)),
        UInt16.ofNat (logonResult payload), logonText payload, ()) := by
    simp only [Wire.MessageKind.layout, Wire.readRow, Wire.FieldKind.width, h₁, h₂, h₃, if_false]
    simp only [Wire.FieldKind.ofBytes, logonText, logonResult, List.drop_drop]
  have hlt : logonResult payload < 65536 := by
    have hbound := Wire.ofLittleEndian_lt ((payload.drop 2).take 2)
    have htwo : ((payload.drop 2).take 2).length = 2 := by
      rw [List.length_take]
      omega
    rw [htwo] at hbound
    exact hbound
  refine ⟨_, _, Message.decode_of_readRow hr, ?_⟩
  have hn : (UInt16.ofNat (logonResult payload)).toNat = logonResult payload :=
    UInt16.toNat_ofNat_of_lt hlt
  rw [logonAccepted, ← UInt16.toNat_inj, hn]
  rfl

theorem decode_heartbeat (hc : f.code = 3) (hlen : 4 ≤ f.payload.length) :
    ∃ d, Message.decode f = .ok (.heartbeat d) := by
  have hkind : Wire.MessageKind.heartbeat.code = f.code := hc.symm
  rcases decode_of_kind hkind with ⟨-, r, -, hd⟩ | ⟨need, hlt, -⟩
  · exact ⟨_, hd⟩
  · exact absurd (Nat.lt_of_lt_of_le hlt hlen) (Nat.lt_irrefl _)

end Frames

/-- What a call makes of a frame while it waits for the answer to its logon: it passes over a
heartbeat, it is let in, or it fails as the bytes tell. -/
theorem judgeLogon_spec (c : Client) (k : Call) (n : Nat) {f : Frame} (hsize : f.size < 65536)
    (closed : Bool) (tail : List UInt8) :
    (Beats f ∧ c.judgeLogon k n f = c) ∨
    (Accepts f ∧ c.judgeLogon k n f = ({ c with connecting := false }.joinSession k.id).setStage k.id
      (.beforeInstallation n)) ∨
    ∃ e, Denies closed (f.bytes ++ tail) e ∧ c.judgeLogon k n f = c.failLogon k n e := by
  unfold Client.judgeLogon
  cases hkind : Wire.MessageKind.ofCode? f.code with
  | none =>
    obtain ⟨hd, hs⟩ := decode_of_unknown hkind
    have hne (k : Wire.MessageKind) : f.code ≠ k.code := by
      intro hc
      rw [hc, k.ofCode?_code] at hkind
      cases hkind
    simp only [hd]
    exact .inr (.inr ⟨_, .unexpected f tail hsize (hne .logonResponse) (hne .heartbeat)
      (by rw [hs]; nofun), rfl⟩)
  | some kind =>
    have hc := Wire.MessageKind.code_of_ofCode? hkind
    have hshape : shape? f.code = some kind.shape := by rw [← hc, shape?_of_kind]
    rcases decode_of_kind hc with ⟨hlen, r, hr, hd⟩ | ⟨need, hlt, hneed, hd⟩
    · have hlong (s : Wire.Shape) (hs : shape? f.code = some s) : s.width ≤ f.payload.length := by
        rw [hshape] at hs
        cases hs
        exact hlen
      have hother (h₂ : f.code ≠ 2) (h₃ : f.code ≠ 3) :
          Denies closed (f.bytes ++ tail)
            (.unexpectedMessage (Message.ofRow kind r).kind.code) := by
        rw [Message.kind_ofRow, hc]
        exact .unexpected f tail hsize h₂ h₃ hlong
      cases kind with
      | heartbeat =>
        simp only [hd]
        exact .inl ⟨⟨hc.symm, hlen, hsize⟩, rfl⟩
      | logonResponse =>
        obtain ⟨v, result, hd', hresult⟩ := decode_logonResponse hc.symm hlen
        simp only [hd']
        split
        · next hr => exact .inr (.inl ⟨⟨hc.symm, hlen, hresult.1 hr, hsize⟩, rfl⟩)
        · next hr =>
          exact .inr (.inr ⟨_, .rejected f tail hsize hc.symm hlen (mt hresult.2 hr), rfl⟩)
      | logonRequest | logoff | subscribe | subscriptionResponse | tradeUpdate =>
        simp only [hd]
        exact .inr (.inr ⟨_, hother (by rw [← hc]; decide) (by rw [← hc]; decide), rfl⟩)
    · simp only [hd]
      exact .inr (.inr ⟨_, .short f tail _ need hsize hshape hlt hneed, rfl⟩)

/-! ## The bytes that have arrived -/

/-- What a call makes of what has arrived on its connection `x` while it waits for the answer. -/
inductive Hears (now : Nat) (k : Call) (n due : Nat) (c : Client) (x : Connection) : Client → Prop where
  | beats (f : Frame) (tail : List UInt8) (hin : x.incoming = f.bytes ++ tail) (hf : Beats f) :
      Hears now k n due c x
        (c.onConnection n fun _ => { x with incoming := tail, log := x.log ++ [.took f] })
  | accepted (f : Frame) (tail : List UInt8) (hin : x.incoming = f.bytes ++ tail) (hf : Accepts f) :
      Hears now k n due c x ((Client.joinSession { c.onConnection n fun _ =>
        { x with incoming := tail, log := x.log ++ [.took f] } with connecting := false }
        k.id).setStage k.id (.beforeInstallation n))
  | fails (e : RelayError) (x' : Connection) (hd : Denies x.peerClosed x.incoming e)
      (hl : x'.log = x.log ∨ ∃ f, x'.log = x.log ++ [.took f]) :
      Hears now k n due c x ((c.onConnection n fun _ => x').failLogon k n e)
  | late (hin : StartsIncomplete x.incoming) (hopen : x.peerClosed = false) (hdue : due ≤ now) :
      Hears now k n due c x (c.failLogon k n (.timeout "logon response"))

theorem next_size {bytes tail : List UInt8} {f : Frame} (h : Frame.next bytes = .frame f tail) :
    f.size < 65536 := by
  unfold Wire.Frame.next at h
  split at h
  · next s₀ s₁ c₀ c₁ rest =>
    simp only at h
    split at h
    · cases h
    · next hlow =>
      split at h
      · cases h
      · next hlong =>
        cases h
        have hlt : Wire.ofLittleEndian [s₀, s₁] < Nat.pow 256 2 := Wire.ofLittleEndian_lt [s₀, s₁]
        have hpow : Nat.pow 256 2 = 65536 := rfl
        rw [hpow] at hlt
        simp only [Wire.headerWidth] at hlow hlong
        simp only [Wire.Frame.size, Wire.headerWidth, List.length_take]
        omega
  · cases h

theorem hears_of_logOn {c c' : Client} {k : Call} {n due now : Nat} {x : Connection}
    (hx : c.connections[n]? = some x) (h : c.logOn? k n due now = some c') :
    Hears now k n due c x c' := by
  have hcases := Wire.next_cases x.incoming
  simp only [Client.logOn?, hx, Connection.next] at h
  cases hn : Wire.Frame.next x.incoming with
  | frame f tail =>
    rw [hn] at hcases
    simp only [hn] at h
    cases h
    rcases judgeLogon_spec (c.onConnection n fun _ =>
      { x with incoming := tail, log := x.log ++ [.took f] }) k n (next_size hn) x.peerClosed tail
      with ⟨hf, he⟩ | ⟨hf, he⟩ | ⟨e, hd, he⟩
    · rw [he]
      exact .beats f tail hcases hf
    · rw [he]
      exact .accepted f tail hcases hf
    · rw [he]
      rw [← hcases] at hd
      exact .fails e _ hd (.inr ⟨f, rfl⟩)
  | undersized size tail =>
    rw [hn] at hcases
    simp only [hn] at h
    cases h
    exact .fails _ _ (.undersized _ size hcases) (.inl rfl)
  | incomplete =>
    rw [hn] at hcases
    cases hp : x.peerClosed with
    | true =>
      simp only [hn, hp, if_true] at h
      cases h
      exact .fails _ _ (.ended _ hp hcases) (.inl rfl)
    | false =>
      simp only [hn, hp, Bool.false_eq_true, if_false] at h
      split at h
      · next hdue =>
        cases h
        exact .late hcases hp hdue
      · cases h

/-- The call waits while the next frame is not there, nor the end, nor the deadline. -/
theorem waits_of_logOn {c : Client} {k : Call} {n due now : Nat} {x : Connection}
    (hx : c.connections[n]? = some x) (h : c.logOn? k n due now = none) :
    StartsIncomplete x.incoming ∧ x.peerClosed = false ∧ now < due := by
  have hcases := Wire.next_cases x.incoming
  simp only [Client.logOn?, hx, Connection.next] at h
  cases hn : Wire.Frame.next x.incoming with
  | frame f tail => simp only [hn, reduceCtorEq] at h
  | undersized size tail => simp only [hn, reduceCtorEq] at h
  | incomplete =>
    rw [hn] at hcases
    cases hp : x.peerClosed with
    | true => simp only [hn, hp, if_true, reduceCtorEq] at h
    | false =>
      simp only [hn, hp, Bool.false_eq_true, if_false] at h
      split at h
      · cases h
      · next hdue => exact ⟨hcases, rfl, Nat.lt_of_not_le hdue⟩

/-! ## One outcome for the bytes -/

section Bytes

variable {closed closed' : Bool} {bytes rest rest' sent : List UInt8} {e e' : RelayError}
  {f : Frame}

theorem next_of_startsUndersized {size : Nat} (h : StartsUndersized size bytes) :
    ∃ tail, Frame.next bytes = .undersized size tail := by
  obtain ⟨s₀, s₁, c₀, c₁, tail, rfl, hs, hlt⟩ := h
  exact ⟨tail, by simp only [Frame.next, hs, hlt, if_true]⟩

theorem next_of_startsIncomplete (h : StartsIncomplete bytes) : Frame.next bytes = .incomplete := by
  have hcases := Wire.next_cases bytes
  cases hn : Frame.next bytes with
  | incomplete => rfl
  | undersized size tail =>
    rw [hn] at hcases
    exact absurd hcases (Wire.not_startsUndersized h)
  | frame f tail =>
    rw [hn] at hcases
    -- the header tells the size of the frame, and so many bytes are there
    have hsize : Wire.ofLittleEndian (bytes.take 2) = f.size := by
      rw [hcases]
      exact Wire.ofLittleEndian_size (next_size hn)
    have hlen : bytes.length = f.size + tail.length := by
      rw [hcases, List.length_append, Wire.length_bytes]
    have hlow : Wire.headerWidth ≤ f.size := Nat.le_add_right _ _
    rcases h with h | ⟨-, h⟩ <;> omega

/-- No whole heartbeat comes next. -/
def Decides (bytes : List UInt8) : Prop :=
  ∀ f tail, Frame.next bytes = .frame f tail → ¬ Beats f

theorem decides_of_ne (h : ∀ f tail, Frame.next bytes ≠ .frame f tail) : Decides bytes :=
  fun f tail hn => absurd hn (h f tail)

theorem decides_append {tail : List UInt8} (hsize : f.size < 65536) (h : ¬ Beats f) :
    Decides (f.bytes ++ tail) := by
  intro g rest hg
  rw [Wire.next_bytes_append hsize] at hg
  cases hg
  exact h

theorem decides_of_startsIncomplete (h : StartsIncomplete bytes) : Decides bytes :=
  decides_of_ne fun f tail hn => by
    rw [next_of_startsIncomplete h] at hn
    cases hn

theorem Accepts.decides (h : Accepts f) (tail : List UInt8) : Decides (f.bytes ++ tail) :=
  decides_append h.2.2.2 fun hb => absurd (h.1.symm.trans hb.1) (by decide)

theorem Denies.decides (h : Denies closed bytes e) : Decides bytes := by
  cases h with
  | rejected f tail hsize hc =>
    exact decides_append hsize fun hb => absurd (hc.symm.trans hb.1) (by decide)
  | unexpected f tail hsize hr hb => exact decides_append hsize fun h => hb h.1
  | short f tail s need hsize hs hlen =>
    refine decides_append hsize fun h => ?_
    rw [h.1] at hs
    cases hs
    exact absurd h.2.1 (Nat.not_le_of_lt hlen)
  | undersized _ size h =>
    obtain ⟨tail, hn⟩ := next_of_startsUndersized h
    exact decides_of_ne fun f tail' hn' => by
      rw [hn] at hn'
      cases hn'
  | ended _ _ h => exact decides_of_startsIncomplete h

/-- What comes of a logon by the bytes that start with no heartbeat. -/
def verdict (closed : Bool) (bytes : List UInt8) : Except RelayError Unit :=
  match Frame.next bytes with
  | .frame f _ =>
    match (shape? f.code).bind fun s => s.ends.find? (f.payload.length < ·) with
    | some need => .error (.malformed (.shortPayload f.code need f.payload.length))
    | none =>
      if f.code = 2 then
        if logonResult f.payload = 1 then .ok () else .error (.logonRejected (logonText f.payload))
      else .error (.unexpectedMessage f.code)
  | .undersized size _ => .error (.malformed (.shortFrame size))
  | .incomplete => .error (if closed then .io .endOfInput else .timeout "logon response")

theorem find?_ends_of_le {s : Wire.Shape} (hs : shape? f.code = some s)
    (h : s.width ≤ f.payload.length) : s.ends.find? (f.payload.length < ·) = none := by
  rw [Wire.shape?_eq, Option.map_eq_some_iff] at hs
  obtain ⟨k, -, rfl⟩ := hs
  have hall : ∀ i ∈ k.shape.ends, i ≤ k.shape.width := by
    cases k <;> decide
  rw [List.find?_eq_none]
  intro i hi hlt
  exact absurd (hall i hi) (Nat.not_le_of_lt (Nat.lt_of_le_of_lt h (of_decide_eq_true hlt)))

/-- An answer to a logon with all its fields lets in or rejects. -/
theorem verdict_of_answer {tail : List UInt8} (hsize : f.size < 65536) (hc : f.code = 2)
    (hlen : 68 ≤ f.payload.length) : verdict closed (f.bytes ++ tail) =
      if logonResult f.payload = 1 then .ok ()
      else .error (.logonRejected (logonText f.payload)) := by
  have hs : shape? f.code = some Wire.MessageKind.logonResponse.shape := by
    rw [hc]
    rfl
  simp only [verdict, Wire.next_bytes_append hsize, hs, Option.bind_some,
    find?_ends_of_le hs hlen]
  rw [if_pos hc]

theorem Denies.verdict_eq (h : Denies closed bytes e) : verdict closed bytes = .error e := by
  cases h with
  | rejected f tail hsize hc hlen hr => rw [verdict_of_answer hsize hc hlen, if_neg hr]
  | unexpected f tail hsize hr hb hlen =>
    have hnone : (shape? f.code).bind (fun s => s.ends.find? (f.payload.length < ·)) = none := by
      cases hs : shape? f.code with
      | none => rfl
      | some s => exact find?_ends_of_le hs (hlen s hs)
    simp only [verdict, Wire.next_bytes_append hsize, hnone, hr, if_false]
  | short f tail s need hsize hs hlen hneed =>
    simp only [verdict, Wire.next_bytes_append hsize, hs, Option.bind_some, hneed]
  | undersized _ size h =>
    obtain ⟨tail, hn⟩ := next_of_startsUndersized h
    simp only [verdict, hn]
  | ended _ hc h => simp only [verdict, next_of_startsIncomplete h, hc, if_true]

/-- The peer has sent some heartbeats, and then `rest`. -/
def Behind (sent rest : List UInt8) : Prop :=
  ∃ beats : List Frame, (∀ f ∈ beats, Beats f) ∧ sent = beats.flatMap Frame.bytes ++ rest

/-- What follows the heartbeats that the peer has sent is told by all that it has sent. -/
theorem Behind.unique (h : Behind sent rest) (h' : Behind sent rest') (hd : Decides rest)
    (hd' : Decides rest') : rest = rest' := by
  obtain ⟨beats, hbeats, rfl⟩ := h
  obtain ⟨beats', hbeats', heq⟩ := h'
  have hcons {g : Frame} {gs : List Frame} {last : List UInt8} (hg : Beats g) :
      Frame.next ((g :: gs).flatMap Frame.bytes ++ last) =
        .frame g (gs.flatMap Frame.bytes ++ last) := by
    rw [List.flatMap_cons, List.append_assoc]
    exact Wire.next_bytes_append hg.2.2 _
  induction beats generalizing beats' with
  | nil =>
    cases beats' with
    | nil => exact heq
    | cons g gs =>
      have hg := hbeats' g (.head _)
      exact absurd hg (hd g _ ((congrArg Frame.next heq).trans (hcons hg)))
  | cons f fs ih =>
    have hf := hbeats f (.head _)
    cases beats' with
    | nil => exact absurd hf (hd' f _ ((congrArg Frame.next heq.symm).trans (hcons hf)))
    | cons g gs =>
      have hnext := congrArg Frame.next heq
      rw [hcons hf, hcons (hbeats' g (.head _))] at hnext
      injection hnext with hfg htail
      exact ih (fun i hi => hbeats i (.tail _ hi)) gs (fun i hi => hbeats' i (.tail _ hi)) htail

/-- What the bytes of the peer make of the logon, if it has closed behind them or not. -/
inductive Reveals (closed : Bool) (sent : List UInt8) : Except RelayError Unit → Prop where
  | accepts (f : Frame) (tail : List UInt8) (hs : Behind sent (f.bytes ++ tail)) (hf : Accepts f) :
      Reveals closed sent (.ok ())
  | denies (rest : List UInt8) (e : RelayError) (hs : Behind sent rest) (hd : Denies closed rest e) :
      Reveals closed sent (.error e)
  | nothing (rest : List UInt8) (hs : Behind sent rest) (hopen : closed = false)
      (hin : StartsIncomplete rest) : Reveals closed sent (.error (.timeout "logon response"))

theorem Reveals.verdict_eq {r : Except RelayError Unit} (h : Reveals closed sent r) :
    ∃ rest, Behind sent rest ∧ Decides rest ∧ verdict closed rest = r := by
  cases h with
  | accepts f tail hs hf =>
    refine ⟨_, hs, hf.decides tail, ?_⟩
    rw [verdict_of_answer hf.2.2.2 hf.1 hf.2.1, if_pos hf.2.2.1]
  | denies rest e hs hd => exact ⟨rest, hs, hd.decides, hd.verdict_eq⟩
  | nothing rest hs hopen hin =>
    refine ⟨rest, hs, decides_of_startsIncomplete hin, ?_⟩
    simp only [verdict, next_of_startsIncomplete hin, hopen, Bool.false_eq_true, if_false]

/-- The bytes tell one outcome. -/
theorem Reveals.unique {r r' : Except RelayError Unit} (h : Reveals closed sent r)
    (h' : Reveals closed sent r') : r = r' := by
  obtain ⟨rest, hs, hd, hr⟩ := h.verdict_eq
  obtain ⟨rest', hs', hd', hr'⟩ := h'.verdict_eq
  rw [← hr, ← hr', hs.unique hs' hd hd']

end Bytes

end Relay
end MarketFeed
