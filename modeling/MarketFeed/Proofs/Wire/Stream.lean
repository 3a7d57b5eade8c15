import MarketFeed.Relay.Error

/-!
# MarketFeed.Proofs.Wire.Stream

Frames on a stream of bytes that arrives in pieces.

* `readExact`, `readFrame` — a reader that waits for the bytes it needs, from as many pieces as
  that takes. `Reads` — it is asked for frames until it fails.
* `reads_iff` — the pieces do not matter: what is read is `frames` of all the bytes together.
* `frames_encode_take` — the encodings of messages, cut anywhere: the frames of the messages that
  are whole, then the end of the input.
* `frames_rest` — any bytes: the frames read stand at the start of the input, byte for byte, and
  what follows them tells how the reading ends.
-/

namespace MarketFeed
namespace Wire

open Relay (RelayError)

/-! ## Reading off pieces -/

/-- Takes exactly `n` bytes off the pieces; none if the input ends before. -/
def readExact : Nat → List (List UInt8) → Option (List UInt8 × List (List UInt8))
  | n, [] => if n = 0 then some ([], []) else none
  | n, piece :: rest =>
    if n ≤ piece.length then some (piece.take n, piece.drop n :: rest)
    else (readExact (n - piece.length) rest).map fun (bytes, rest) => (piece ++ bytes, rest)

/-- Takes a frame off the pieces: the header, then as many bytes as it tells. -/
def readFrame (pieces : List (List UInt8)) : Except RelayError (Frame × List (List UInt8)) :=
  match readExact headerWidth pieces with
  | none => .error (.io .endOfInput)
  | some (header, rest) =>
    let size := ofLittleEndian (header.take 2)
    if size < headerWidth then .error (.malformed (.shortFrame size))
    else
      match readExact (size - headerWidth) rest with
      | none => .error (.io .endOfInput)
      | some (payload, rest) =>
        .ok (⟨UInt16.ofNat (ofLittleEndian (header.drop 2)), payload⟩, rest)

/-- Frames are taken off the pieces until the first failure. -/
inductive Reads : List (List UInt8) → List Frame → RelayError → Prop where
  | stop {pieces : List (List UInt8)} {e : RelayError} :
      readFrame pieces = .error e → Reads pieces [] e
  | more {pieces rest : List (List UInt8)} {f : Frame} {fs : List Frame} {e : RelayError} :
      readFrame pieces = .ok (f, rest) → Reads rest fs e → Reads pieces (f :: fs) e

/-- The failure in which the reading ends. -/
def Ending.error : Ending → RelayError
  | .undersized size _ => .malformed (.shortFrame size)
  | .incomplete => .io .endOfInput

/-- What is long enough for a header starts with one. -/
theorem header_of_length_le {bytes : List UInt8} (h : headerWidth ≤ bytes.length) :
    ∃ s₀ s₁ c₀ c₁ rest, bytes = s₀ :: s₁ :: c₀ :: c₁ :: rest := by
  match bytes, h with
  | s₀ :: s₁ :: c₀ :: c₁ :: rest, _ => exact ⟨s₀, s₁, c₀, c₁, rest, rfl⟩
  | [], h | [_], h | [_, _], h | [_, _, _], h => simp [headerWidth] at h

theorem Frame.next_of_length_lt {bytes : List UInt8} (h : bytes.length < headerWidth) :
    Frame.next bytes = .incomplete := by
  match bytes, h with
  | _ :: _ :: _ :: _ :: _, h => simp [headerWidth] at h; omega
  | [], _ | [_], _ | [_, _], _ | [_, _, _], _ => rfl

theorem readExact_eq_none {n : Nat} {pieces : List (List UInt8)} :
    readExact n pieces = none ↔ pieces.flatten.length < n := by
  induction pieces generalizing n with
  | nil => simp [readExact, Nat.pos_iff_ne_zero]
  | cons piece rest ih =>
    simp only [readExact, List.flatten_cons, List.length_append]
    split
    · simp; omega
    · rw [Option.map_eq_none_iff, ih]; omega

theorem readExact_eq_some {n : Nat} {pieces rest : List (List UInt8)} {bytes : List UInt8}
    (h : readExact n pieces = some (bytes, rest)) :
    bytes = pieces.flatten.take n ∧ rest.flatten = pieces.flatten.drop n := by
  induction pieces generalizing n bytes rest with
  | nil =>
    simp only [readExact] at h
    split at h
    · cases h; simp
    · cases h
  | cons piece others ih =>
    simp only [readExact] at h
    split at h
    · rename_i hn
      cases h
      simp [List.take_append_of_le_length hn, List.drop_append_of_le_length hn]
    · rename_i hn
      obtain ⟨⟨tail, left⟩, ht, he⟩ := Option.map_eq_some_iff.1 h
      cases he
      obtain ⟨hb, hr⟩ := ih ht
      have hle : piece.length ≤ n := by omega
      simp [List.take_append, List.drop_append, List.take_of_length_le hle,
        List.drop_eq_nil_of_le hle, hb, hr]

/-- One frame off the pieces is one frame off all the bytes together. -/
theorem readFrame_eq (pieces : List (List UInt8)) :
    match Frame.next pieces.flatten with
    | .frame f rest => ∃ left, readFrame pieces = .ok (f, left) ∧ left.flatten = rest
    | .undersized size _ => readFrame pieces = .error (.malformed (.shortFrame size))
    | .incomplete => readFrame pieces = .error (.io .endOfInput) := by
  cases h : readExact headerWidth pieces with
  | none =>
    have hshort := readExact_eq_none.1 h
    rw [Frame.next_of_length_lt hshort]
    simp [readFrame, h]
  | some p =>
    obtain ⟨header, rest⟩ := p
    obtain ⟨hh, hr⟩ := readExact_eq_some h
    have hlong : headerWidth ≤ pieces.flatten.length := by
      rcases Nat.lt_or_ge pieces.flatten.length headerWidth with hc | hc
      · rw [readExact_eq_none.2 hc] at h
        cases h
      · exact hc
    obtain ⟨s₀, s₁, c₀, c₁, more, hb⟩ := header_of_length_le hlong
    rw [hb] at hh hr ⊢
    simp only [headerWidth, List.take_succ_cons, List.take_zero, List.drop_succ_cons,
      List.drop_zero] at hh hr
    subst hh
    simp only [Frame.next, readFrame, h, List.take_succ_cons, List.take_zero, List.drop_succ_cons,
      List.drop_zero]
    by_cases hs : ofLittleEndian [s₀, s₁] < headerWidth
    · simp [hs]
    · simp only [hs, if_false]
      cases hp : readExact (ofLittleEndian [s₀, s₁] - headerWidth) rest with
      | none =>
        rw [readExact_eq_none, hr] at hp
        simp [hp]
      | some q =>
        obtain ⟨payload, left⟩ := q
        have hw : ¬ more.length < ofLittleEndian [s₀, s₁] - headerWidth := by
          rw [← hr, ← readExact_eq_none, hp]
          simp
        obtain ⟨hpay, hleft⟩ := readExact_eq_some hp
        rw [hr] at hpay hleft
        subst hpay
        simp [hw, hleft]

theorem reads_of_error {pieces : List (List UInt8)} {fs : List Frame} {e e' : RelayError}
    (h : readFrame pieces = .error e') : Reads pieces fs e ↔ fs = [] ∧ e = e' := by
  constructor
  · intro hr
    cases hr with
    | stop he => rw [h] at he; cases he; exact ⟨rfl, rfl⟩
    | more hf _ => rw [h] at hf; cases hf
  · rintro ⟨rfl, rfl⟩
    exact .stop h

theorem reads_of_ok {pieces rest : List (List UInt8)} {f : Frame} {fs : List Frame}
    {e : RelayError} (h : readFrame pieces = .ok (f, rest)) :
    Reads pieces fs e ↔ ∃ tail, fs = f :: tail ∧ Reads rest tail e := by
  constructor
  · intro hr
    cases hr with
    | stop he => rw [h] at he; cases he
    | more hf hrest => rw [h] at hf; cases hf; exact ⟨_, rfl, hrest⟩
  · rintro ⟨tail, rfl, hrest⟩
    exact .more h hrest

/-! ## The frames of a run of bytes -/

theorem frames_of_frame {bytes rest : List UInt8} {f : Frame}
    (h : Frame.next bytes = .frame f rest) :
    frames bytes = (f :: (frames rest).1, (frames rest).2) := by
  rw [frames]
  split <;> simp_all

theorem frames_of_undersized {bytes rest : List UInt8} {size : Nat}
    (h : Frame.next bytes = .undersized size rest) :
    frames bytes = ([], .undersized size rest) := by
  rw [frames]
  split <;> simp_all

theorem frames_of_incomplete {bytes : List UInt8} (h : Frame.next bytes = .incomplete) :
    frames bytes = ([], .incomplete) := by
  rw [frames]
  split <;> simp_all

/-- The reading off pieces stops, and what it reads is fixed by the bytes alone. -/
theorem reads_iff {pieces : List (List UInt8)} {fs : List Frame} {e : RelayError} :
    Reads pieces fs e ↔ fs = (frames pieces.flatten).1 ∧ e = (frames pieces.flatten).2.error := by
  -- by the bytes left, not by the pieces: a frame read leaves a part of the piece it ends in
  induction hn : pieces.flatten.length using Nat.strongRecOn generalizing pieces fs with
  | _ n ih =>
    have hstep := readFrame_eq pieces
    cases hnext : Frame.next pieces.flatten with
    | frame f rest =>
      rw [hnext] at hstep
      obtain ⟨left, hread, hleft⟩ := hstep
      have hshorter : left.flatten.length < n := by
        rw [hleft, ← hn]
        exact Next.length_rest_lt hnext
      rw [reads_of_ok hread, frames_of_frame hnext, ← hleft]
      constructor
      · rintro ⟨tail, rfl, hrest⟩
        obtain ⟨rfl, rfl⟩ := (ih _ hshorter rfl).1 hrest
        exact ⟨rfl, rfl⟩
      · rintro ⟨rfl, rfl⟩
        exact ⟨_, rfl, (ih _ hshorter rfl).2 ⟨rfl, rfl⟩⟩
    | undersized size rest =>
      rw [hnext] at hstep
      rw [reads_of_error hstep, frames_of_undersized hnext]
      rfl
    | incomplete =>
      rw [hnext] at hstep
      rw [reads_of_error hstep, frames_of_incomplete hnext]
      rfl

/-! ## Encodings cut anywhere -/

theorem littleEndian_two (n : Nat) :
    littleEndian 2 n = [(n % 256).toUInt8, (n / 256 % 256).toUInt8] := rfl

theorem length_bytes (f : Frame) : f.bytes.length = f.size := by
  simp only [Frame.bytes, Frame.size, List.length_append, length_littleEndian, headerWidth]

theorem ofLittleEndian_size {f : Frame} (h : f.size < 65536) :
    ofLittleEndian (littleEndian 2 f.size) = f.size := by
  rw [ofLittleEndian_littleEndian]
  exact Nat.mod_eq_of_lt h

theorem ofLittleEndian_code (f : Frame) :
    UInt16.ofNat (ofLittleEndian (littleEndian 2 f.code.toNat)) = f.code := by
  have h : f.code.toNat % Nat.pow 256 2 = f.code.toNat := Nat.mod_eq_of_lt f.code.toNat_lt
  rw [ofLittleEndian_littleEndian, h]
  simp

/-- A whole frame is taken off as it was written. -/
theorem next_bytes_append {f : Frame} (h : f.size < 65536) (rest : List UInt8) :
    Frame.next (f.bytes ++ rest) = .frame f rest := by
  have hs := ofLittleEndian_size h
  have hc := ofLittleEndian_code f
  have hw : f.size - headerWidth = f.payload.length := by simp [Frame.size]
  rw [littleEndian_two] at hs hc
  have hlow : ¬ f.size < headerWidth := by simp [Frame.size]
  have hlen : ¬ (f.payload ++ rest).length < f.payload.length := by simp
  simp only [Frame.bytes, littleEndian_two, List.cons_append, List.nil_append, Frame.next, hs, hc,
    hw, hlow, hlen, if_false]
  rw [List.take_left, List.drop_left]

/-- A frame that is cut off is none yet. -/
theorem next_take_bytes {f : Frame} (h : f.size < 65536) {k : Nat} (hk : k < f.size) :
    Frame.next (f.bytes.take k) = .incomplete := by
  rcases Nat.lt_or_ge k headerWidth with hk4 | hk4
  · apply Frame.next_of_length_lt
    rw [List.length_take]
    omega
  · obtain ⟨i, rfl⟩ : ∃ i, k = i + 4 := ⟨k - 4, by simp [headerWidth] at hk4; omega⟩
    have hs := ofLittleEndian_size h
    have hw : f.size - headerWidth = f.payload.length := by simp [Frame.size]
    have hlow : ¬ f.size < headerWidth := by simp [Frame.size]
    have hlen : (f.payload.take i).length < f.payload.length := by
      simp only [Frame.size, headerWidth] at hk
      rw [List.length_take]
      omega
    rw [littleEndian_two] at hs
    simp only [Frame.bytes, littleEndian_two, List.cons_append, List.nil_append,
      List.take_succ_cons, Frame.next, hs, hw, hlow, hlen, if_false, if_true]

theorem width_layout_lt (k : MessageKind) : k.layout.width < 65532 := by cases k <;> decide

theorem size_frame_lt (m : Message) : m.frame.size < 65536 := by
  have hw := width_layout_lt m.kind
  simp only [Frame.size, Message.frame, Row.length_bytes, headerWidth]
  omega

/-- The messages whose encodings are whole in the first `k` bytes are read, and no more. -/
theorem frames_encode_take (ms : List Message) (k : Nat) :
    ∃ j, j ≤ ms.length ∧ ((ms.take j).flatMap Message.encode).length ≤ k ∧
      (∀ i, j < i → i ≤ ms.length → k < ((ms.take i).flatMap Message.encode).length) ∧
      frames ((ms.flatMap Message.encode).take k) =
        ((ms.take j).map Message.frame, .incomplete) := by
  induction ms generalizing k with
  | nil =>
    refine ⟨0, by simp, by simp, ?_, ?_⟩
    · intro i hi hle
      exact absurd hle (Nat.not_le.2 hi)
    · rw [List.flatMap_nil, List.take_nil, frames_of_incomplete rfl]
      rfl
  | cons m ms ih =>
    have hlt := size_frame_lt m
    have hlen : m.encode.length = m.frame.size := length_bytes m.frame
    rcases Nat.lt_or_ge k m.frame.size with hk | hk
    · -- already the first one is cut
      refine ⟨0, by simp, by simp, ?_, ?_⟩
      · intro i hi _
        obtain ⟨i, rfl⟩ := Nat.exists_eq_succ_of_ne_zero (Nat.ne_of_gt hi)
        simp only [Nat.succ_eq_add_one, List.take_succ_cons, List.flatMap_cons, List.length_append]
        omega
      · rw [List.flatMap_cons, List.take_append_of_le_length (by omega)]
        exact frames_of_incomplete (next_take_bytes hlt hk)
    · obtain ⟨j, hj, hfit, hmore, hframes⟩ := ih (k - m.frame.size)
      refine ⟨j + 1, by simpa using hj, ?_, ?_, ?_⟩
      · simp only [List.take_succ_cons, List.flatMap_cons, List.length_append]
        omega
      · intro i hi hle
        obtain ⟨i, rfl⟩ := Nat.exists_eq_succ_of_ne_zero (Nat.ne_of_gt (Nat.zero_lt_of_lt hi))
        have := hmore i (by omega) (by simpa using hle)
        simp only [Nat.succ_eq_add_one, List.take_succ_cons, List.flatMap_cons, List.length_append]
        omega
      · have hcut : ((m :: ms).flatMap Message.encode).take k =
            m.frame.bytes ++ (ms.flatMap Message.encode).take (k - m.frame.size) := by
          rw [List.flatMap_cons, List.take_append, List.take_of_length_le (by omega), hlen]
          rfl
        rw [hcut, frames_of_frame (next_bytes_append hlt _), hframes]
        rfl

/-! ## Any bytes -/

/-- The bytes start with a header whose size is less than its own. -/
def StartsUndersized (size : Nat) (bytes : List UInt8) : Prop :=
  ∃ s₀ s₁ c₀ c₁ rest, bytes = s₀ :: s₁ :: c₀ :: c₁ :: rest ∧
    ofLittleEndian [s₀, s₁] = size ∧ size < headerWidth

/-- The bytes start with no whole frame, and more of them could make one. -/
def StartsIncomplete (bytes : List UInt8) : Prop :=
  bytes.length < headerWidth ∨
    headerWidth ≤ ofLittleEndian (bytes.take 2) ∧ bytes.length < ofLittleEndian (bytes.take 2)

theorem not_startsUndersized {size : Nat} {bytes : List UInt8} (h : StartsIncomplete bytes) :
    ¬ StartsUndersized size bytes := by
  rintro ⟨s₀, s₁, c₀, c₁, rest, rfl, hs, hlt⟩
  rcases h with h | ⟨h, -⟩
  · simp only [headerWidth, List.length_cons] at h
    omega
  · simp only [List.take_succ_cons, List.take_zero, hs] at h
    omega

/-- A frame is written back with the header it was read from. -/
theorem bytes_of_header {s₀ s₁ c₀ c₁ : UInt8} {payload : List UInt8}
    (h : headerWidth + payload.length = ofLittleEndian [s₀, s₁]) :
    Frame.bytes ⟨UInt16.ofNat (ofLittleEndian [c₀, c₁]), payload⟩ =
      s₀ :: s₁ :: c₀ :: c₁ :: payload := by
  have hsize : littleEndian 2 (ofLittleEndian [s₀, s₁]) = [s₀, s₁] :=
    littleEndian_ofLittleEndian [s₀, s₁]
  have hcode : littleEndian 2 (ofLittleEndian [c₀, c₁]) = [c₀, c₁] :=
    littleEndian_ofLittleEndian [c₀, c₁]
  have hlt : ofLittleEndian [c₀, c₁] < Nat.pow 256 2 := ofLittleEndian_lt [c₀, c₁]
  have hnat : (UInt16.ofNat (ofLittleEndian [c₀, c₁])).toNat = ofLittleEndian [c₀, c₁] :=
    UInt16.toNat_ofNat_of_lt hlt
  simp only [Frame.bytes, Frame.size, h, hnat]
  rw [hsize, hcode]
  rfl

theorem next_cases (bytes : List UInt8) :
    match Frame.next bytes with
    | .frame f rest => bytes = f.bytes ++ rest
    | .undersized size _ => StartsUndersized size bytes
    | .incomplete => StartsIncomplete bytes := by
  rcases Nat.lt_or_ge bytes.length headerWidth with h | h
  · rw [Frame.next_of_length_lt h]
    exact .inl h
  · obtain ⟨s₀, s₁, c₀, c₁, rest, rfl⟩ := header_of_length_le h
    by_cases hs : ofLittleEndian [s₀, s₁] < headerWidth
    · simp only [Frame.next, hs, if_true]
      exact ⟨s₀, s₁, c₀, c₁, rest, rfl, rfl, hs⟩
    · by_cases hw : rest.length < ofLittleEndian [s₀, s₁] - headerWidth
      · simp only [Frame.next, hs, hw, if_false, if_true]
        refine .inr ⟨by simpa using hs, ?_⟩
        simp only [headerWidth] at hw
        simp only [List.take_succ_cons, List.take_zero, List.length_cons]
        omega
      · simp only [Frame.next, hs, hw, if_false]
        have hsize : headerWidth + (rest.take (ofLittleEndian [s₀, s₁] - headerWidth)).length =
            ofLittleEndian [s₀, s₁] := by
          rw [List.length_take]
          omega
        rw [bytes_of_header hsize]
        simp

/-- What was read stands at the start of the input, and what follows it ends the reading. -/
theorem frames_rest (bytes : List UInt8) :
    ∃ rest, bytes = (frames bytes).1.flatMap Frame.bytes ++ rest ∧
      match (frames bytes).2 with
      | .undersized size _ => StartsUndersized size rest
      | .incomplete => StartsIncomplete rest := by
  induction hn : bytes.length using Nat.strongRecOn generalizing bytes with
  | _ n ih =>
    have hcases := next_cases bytes
    cases hnext : Frame.next bytes with
    | frame f tail =>
      rw [hnext] at hcases
      obtain ⟨rest, hsplit, hend⟩ := ih _ (hn ▸ Next.length_rest_lt hnext) tail rfl
      rw [frames_of_frame hnext]
      refine ⟨rest, ?_, hend⟩
      rw [List.flatMap_cons, List.append_assoc, ← hsplit]
      exact hcases
    | undersized size tail =>
      rw [hnext] at hcases
      rw [frames_of_undersized hnext]
      exact ⟨bytes, rfl, hcases⟩
    | incomplete =>
      rw [hnext] at hcases
      rw [frames_of_incomplete hnext]
      exact ⟨bytes, rfl, hcases⟩

/-! ## The codec -/

/-- Reading off the encodings of messages, cut anywhere and given in any pieces, gives the frames
of the messages that are whole and then the end of the input. Reading off any bytes stops; what was
read stands at the start of them, and the reading ends as malformed just if an undersized header
follows. -/
theorem reads_stream :
    (∀ (ms : List Message) (k : Nat) (pieces : List (List UInt8)),
      pieces.flatten = (ms.flatMap Message.encode).take k →
      ∃ j, j ≤ ms.length ∧ ((ms.take j).flatMap Message.encode).length ≤ k ∧
        (∀ i, j < i → i ≤ ms.length → k < ((ms.take i).flatMap Message.encode).length) ∧
        ∀ fs e, Reads pieces fs e ↔ fs = (ms.take j).map Message.frame ∧ e = .io .endOfInput) ∧
    ∀ pieces : List (List UInt8), ∃ fs e rest,
      (∀ fs' e', Reads pieces fs' e' ↔ fs' = fs ∧ e' = e) ∧
      pieces.flatten = fs.flatMap Frame.bytes ++ rest ∧
      (∀ size, e = .malformed (.shortFrame size) ↔ StartsUndersized size rest) ∧
      ((∀ size, ¬ StartsUndersized size rest) → e = .io .endOfInput ∧ StartsIncomplete rest) := by
  constructor
  · intro ms k pieces hp
    obtain ⟨j, hj, hfit, hmore, hframes⟩ := frames_encode_take ms k
    refine ⟨j, hj, hfit, hmore, ?_⟩
    intro fs e
    rw [reads_iff, hp, hframes]
    rfl
  · intro pieces
    obtain ⟨rest, hsplit, hend⟩ := frames_rest pieces.flatten
    refine ⟨_, _, rest, fun _ _ => reads_iff, hsplit, ?_⟩
    cases hlast : (frames pieces.flatten).2 with
    | undersized size tail =>
      rw [hlast] at hend
      refine ⟨?_, fun hnone => absurd hend (hnone size)⟩
      intro size'
      constructor
      · intro he
        cases he
        exact hend
      · rintro ⟨_, _, _, _, _, hb', rfl, -⟩
        obtain ⟨_, _, _, _, _, hb, hs, -⟩ := hend
        rw [hb] at hb'
        cases hb'
        rw [← hs]
        rfl
    | incomplete =>
      rw [hlast] at hend
      refine ⟨?_, fun _ => ⟨rfl, hend⟩⟩
      intro size'
      constructor
      · intro he
        cases he
      · intro hbad
        exact absurd hbad (not_startsUndersized hend)

/-- A heartbeat and a logoff that is cut in its text, in three pieces. -/
theorem reads_stream_cut :
    Reads [[8, 0, 3], [0, 7, 0, 0, 0, 68], [0, 5, 0, 98]] [(Message.heartbeat 7).frame]
      (.io .endOfInput) := by
  let ms : List Message := [.heartbeat 7, .logoff "bye"]
  obtain ⟨j, hj, hfit, hmore, hreads⟩ :=
    reads_stream.1 ms 13 [[8, 0, 3], [0, 7, 0, 0, 0, 68], [0, 5, 0, 98]] (by decide)
  have hone : j = 1 := by
    match j, hj, hfit, hmore with
    | 0, _, _, hmore => exact absurd (hmore 1 (by decide) (by decide)) (by decide)
    | 1, _, _, _ => rfl
    | 2, _, hfit, _ => exact absurd hfit (by decide)
    | j + 3, hj, _, _ => exact absurd hj (by simp [ms])
  subst hone
  exact (hreads _ _).2 ⟨rfl, rfl⟩

end Wire
end MarketFeed
