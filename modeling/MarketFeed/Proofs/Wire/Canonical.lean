import MarketFeed.Proofs.Text.Utf8
import MarketFeed.Proofs.Wire.Stream

/-!
# MarketFeed.Proofs.Wire.Canonical

Which frames are messages, and what is written when such a message is encoded again.

* `Shape`, `shape?` — the payload of each type, byte by byte: where its fields end and where its
  texts lie. The positions are named here again, apart from the layouts.
* `readRow_of_le`, `readRow_of_lt` — a row is read exactly off payloads that are long enough; the
  first field that ends behind the payload is the one that is missed.
* `bytes_of_readRow` — a row that was read is written as its payload was, but for what stood behind
  the NUL of a text.
* `decode_canonical` — the same of frames and messages.
-/

namespace MarketFeed
namespace Wire

/-! ## Shapes -/

/-- The payload of a message. -/
structure Shape where
  /-- Where its fields end, in order. -/
  ends : List Nat
  /-- Where its texts start, and how wide they are. -/
  texts : List (Nat × Nat)
  deriving DecidableEq, Repr

/-- The shapes of the seven types. -/
def shape? (code : UInt16) : Option Shape :=
  match code.toNat with
  | 1 => some ⟨[2, 34, 66, 68, 100], [(2, 32), (34, 32), (68, 32)]⟩
  | 2 => some ⟨[2, 4, 68], [(4, 64)]⟩
  | 3 => some ⟨[4], []⟩
  | 5 => some ⟨[64], [(0, 64)]⟩
  | 101 => some ⟨[4, 68, 100], [(4, 64), (68, 32)]⟩
  | 102 => some ⟨[4, 6, 70], [(6, 64)]⟩
  | 107 => some ⟨[4, 68, 100, 108, 116, 124], [(4, 64), (68, 32)]⟩
  | _ => none

/-- The bytes are the UTF-8 of a text. -/
def IsText (bytes : List UInt8) : Prop := ∃ s, Text.bytesOfText s = bytes

/-- Byte `i` of a payload lies in one of the texts, behind a NUL of the same text. -/
def behindNul (texts : List (Nat × Nat)) (payload : List UInt8) (i : Nat) : Bool :=
  texts.any fun (start, width) =>
    decide (start ≤ i) && decide (i < start + width) && ((payload.take i).drop start).contains 0

namespace Shape

/-- The length of the payload. -/
def width (s : Shape) : Nat := s.ends.getLast?.getD 0

/-- Every text of the payload is UTF-8 up to its first NUL. -/
def TextsValid (s : Shape) (payload : List UInt8) : Prop :=
  ∀ start width, (start, width) ∈ s.texts →
    IsText (((payload.drop start).take width).takeWhile (· != 0))

/-- The payload without what follows it, and with zeros behind the first NUL of each text. -/
def cleaned (s : Shape) (payload : List UInt8) : List UInt8 :=
  (payload.take s.width).mapIdx fun i b => if behindNul s.texts payload i then 0 else b

end Shape

/-! ## The shape of a layout -/

/-- Where the text of a field lies if the field starts at `position`. -/
def FieldKind.texts (position : Nat) : FieldKind → List (Nat × Nat)
  | .text w => [(position, w)]
  | _ => []

namespace Layout

/-- Where the fields end if the first one starts at `position`. -/
def ends (position : Nat) : Layout → List Nat
  | [] => []
  | k :: rest => (position + k.width) :: ends (position + k.width) rest

/-- Where the texts lie if the first field starts at `position`. -/
def texts (position : Nat) : Layout → List (Nat × Nat)
  | [] => []
  | k :: rest => k.texts position ++ texts (position + k.width) rest

theorem width_cons (k : FieldKind) (rest : Layout) :
    Layout.width (k :: rest) = k.width + Layout.width rest := rfl

/-- The texts of a layout lie within it. -/
theorem le_of_mem_texts {position : Nat} {l : Layout} {span : Nat × Nat}
    (h : span ∈ texts position l) : position ≤ span.1 := by
  induction l generalizing position with
  | nil => cases h
  | cons k rest ih =>
    rcases List.mem_append.1 h with h | h
    · cases k with
      | text w => exact Nat.le_of_eq (congrArg Prod.fst (List.mem_singleton.1 h)).symm
      | word16 | word32 | double => cases h
    · exact Nat.le_trans (Nat.le_add_right _ _) (ih h)

end Layout

def MessageKind.shape (k : MessageKind) : Shape := ⟨k.layout.ends 0, k.layout.texts 0⟩

theorem MessageKind.code_of_ofCode? {code : UInt16} {k : MessageKind}
    (h : ofCode? code = some k) : k.code = code := by
  have hk := List.find?_some h
  exact eq_of_beq hk

/-- The types and their shapes are those of the kinds of message. -/
theorem shape?_eq (code : UInt16) :
    shape? code = (MessageKind.ofCode? code).map MessageKind.shape := by
  cases h : MessageKind.ofCode? code with
  | some k =>
    have hcode := MessageKind.code_of_ofCode? h
    subst hcode
    cases k <;> rfl
  | none =>
    have hne : ∀ k : MessageKind, code ≠ k.code := by
      rintro k rfl
      rw [k.ofCode?_code] at h
      cases h
    have hnat : ∀ k : MessageKind, code.toNat ≠ k.code.toNat := fun k he =>
      hne k (UInt16.toNat_inj.1 he)
    simp only [shape?, Option.map_none]
    split
    · next he => exact absurd he (hnat .logonRequest)
    · next he => exact absurd he (hnat .logonResponse)
    · next he => exact absurd he (hnat .heartbeat)
    · next he => exact absurd he (hnat .logoff)
    · next he => exact absurd he (hnat .subscribe)
    · next he => exact absurd he (hnat .subscriptionResponse)
    · next he => exact absurd he (hnat .tradeUpdate)
    · rfl

theorem MessageKind.width_shape (k : MessageKind) : k.shape.width = k.layout.width := by
  cases k <;> rfl

/-! ## Which payloads are rows -/

/-- A row is read off every payload of at least its width. -/
theorem readRow_of_le {l : Layout} {bytes : List UInt8} (h : l.width ≤ bytes.length)
    (position : Nat) : ∃ r, readRow position l bytes = .ok r := by
  induction l generalizing position bytes with
  | nil => exact ⟨(), rfl⟩
  | cons k rest ih =>
    rw [Layout.width_cons] at h
    have hlong : ¬ bytes.length < k.width := by omega
    have hrest : Layout.width rest ≤ (bytes.drop k.width).length := by
      rw [List.length_drop]
      omega
    obtain ⟨r, hr⟩ := ih hrest (position + k.width)
    exact ⟨_, by rw [readRow, if_neg hlong, hr]⟩

/-- Of a payload that is shorter, the first field that ends behind it is missed. -/
theorem readRow_of_lt {l : Layout} {bytes : List UInt8} (h : bytes.length < l.width)
    (position : Nat) :
    ∃ need, (l.ends position).find? (position + bytes.length < ·) = some need ∧
      readRow position l bytes = .error need := by
  induction l generalizing position bytes with
  | nil => exact absurd h (Nat.not_lt_zero _)
  | cons k rest ih =>
    rw [Layout.width_cons] at h
    by_cases hshort : bytes.length < k.width
    · have hend : position + bytes.length < position + k.width := by omega
      exact ⟨_, List.find?_cons_of_pos (decide_eq_true hend), if_pos hshort⟩
    · have hend : ¬ position + bytes.length < position + k.width := by omega
      have hrest : (bytes.drop k.width).length < Layout.width rest := by
        rw [List.length_drop]
        omega
      have hsum : position + k.width + (bytes.drop k.width).length = position + bytes.length := by
        rw [List.length_drop]
        omega
      obtain ⟨need, hfind, hr⟩ := ih hrest (position + k.width)
      rw [hsum] at hfind
      refine ⟨need, ?_, by rw [readRow, if_neg hshort, hr]⟩
      rw [Layout.ends, List.find?_cons_of_neg (by simpa using hend)]
      exact hfind

/-- Reading a row looks at no more bytes than its fields take. -/
theorem readRow_take (l : Layout) (position : Nat) (bytes : List UInt8) :
    readRow position l (bytes.take l.width) = readRow position l bytes := by
  induction l generalizing position bytes with
  | nil => rfl
  | cons k rest ih =>
    have hlen : (bytes.take (k.width + Layout.width rest)).length < k.width ↔
        bytes.length < k.width := by
      rw [List.length_take]
      omega
    have htake : (bytes.take (k.width + Layout.width rest)).take k.width = bytes.take k.width := by
      rw [List.take_take, Nat.min_eq_left (Nat.le_add_right _ _)]
    have hdrop : (bytes.take (k.width + Layout.width rest)).drop k.width =
        (bytes.drop k.width).take (Layout.width rest) := by
      rw [List.drop_take, Nat.add_sub_cancel_left]
    rw [Layout.width_cons, readRow, readRow, htake, hdrop, ih]
    simp only [hlen]

/-! ## Fields written again -/

/-- The bytes before the first zero, filled up with zeros. -/
def cutAtNul (bytes : List UInt8) : List UInt8 :=
  bytes.takeWhile (· != 0) ++
    List.replicate (bytes.length - (bytes.takeWhile (· != 0)).length) 0

theorem length_cutAtNul (bytes : List UInt8) : (cutAtNul bytes).length = bytes.length := by
  have h := (List.takeWhile_sublist (· != 0) (l := bytes)).length_le
  rw [cutAtNul, List.length_append, List.length_replicate]
  omega

theorem getElem?_cutAtNul (bytes : List UInt8) (i : Nat) :
    (cutAtNul bytes)[i]? =
      bytes[i]?.map fun b => if (bytes.take i).contains 0 then 0 else b := by
  induction bytes generalizing i with
  | nil => rfl
  | cons b rest ih =>
    by_cases hb : b = 0
    · subst hb
      have hcut : cutAtNul (0 :: rest) = List.replicate (rest.length + 1) 0 := by simp [cutAtNul]
      rw [hcut]
      cases i with
      | zero => rfl
      | succ i =>
        by_cases hi : i < rest.length <;> simp [hi]
    · have hcut : cutAtNul (b :: rest) = b :: cutAtNul rest := by simp [cutAtNul, hb]
      rw [hcut]
      cases i with
      | zero => rfl
      | succ i =>
        have hne : (0 == b) = false := by simpa using Ne.symm hb
        rw [List.getElem?_cons_succ, List.getElem?_cons_succ, List.take_succ_cons,
          List.contains_cons, hne, Bool.false_or, ih]

/-- What a field is after it was read and written. -/
def FieldKind.cleaned : FieldKind → List UInt8 → List UInt8
  | .text _, bytes => cutAtNul bytes
  | _, bytes => bytes

theorem fixedText_ofFixedText {width : Nat} {bytes : List UInt8} (hlen : bytes.length = width)
    (htext : IsText (bytes.takeWhile (· != 0))) :
    fixedText width (ofFixedText bytes) = cutAtNul bytes := by
  obtain ⟨s, hs⟩ := htext
  have hle := (List.takeWhile_sublist (· != 0) (l := bytes)).length_le
  have htake : (bytes.takeWhile (· != 0)).take width = bytes.takeWhile (· != 0) :=
    List.take_of_length_le (by omega)
  rw [ofFixedText, ← hs, Text.textOfBytes_bytesOfText, fixedText, hs]
  simp only [htake, cutAtNul, hlen]

/-- A number is written as it was read, a text up to its NUL. -/
theorem FieldKind.bytes_ofBytes {k : FieldKind} {bytes : List UInt8} (hlen : bytes.length = k.width)
    (htext : ∀ w, k = .text w → IsText (bytes.takeWhile (· != 0))) :
    k.bytes (k.ofBytes bytes) = k.cleaned bytes := by
  have hlt := ofLittleEndian_lt bytes
  have hback := littleEndian_ofLittleEndian bytes
  rw [hlen] at hlt hback
  cases k with
  | word16 =>
    have hn : (UInt16.ofNat (ofLittleEndian bytes)).toNat = ofLittleEndian bytes :=
      UInt16.toNat_ofNat_of_lt hlt
    simp only [FieldKind.bytes, FieldKind.ofBytes, hn]
    exact hback
  | word32 =>
    have hn : (UInt32.ofNat (ofLittleEndian bytes)).toNat = ofLittleEndian bytes :=
      UInt32.toNat_ofNat_of_lt hlt
    simp only [FieldKind.bytes, FieldKind.ofBytes, hn]
    exact hback
  | double =>
    have hn : (UInt64.ofNat (ofLittleEndian bytes)).toNat = ofLittleEndian bytes :=
      UInt64.toNat_ofNat_of_lt hlt
    simp only [FieldKind.bytes, FieldKind.ofBytes, hn]
    exact hback
  | text w => exact fixedText_ofFixedText hlen (htext w rfl)

/-! ## Rows written again -/

/-- What a payload is after it was read and written, field by field. -/
def Layout.cleaned : Layout → List UInt8 → List UInt8
  | [], _ => []
  | k :: rest, bytes => k.cleaned (bytes.take k.width) ++ Layout.cleaned rest (bytes.drop k.width)

/-- The texts of the layout, if its fields start at `position`, are UTF-8 up to their NUL. -/
def Layout.TextsValid (position : Nat) (l : Layout) (bytes : List UInt8) : Prop :=
  ∀ start width, (start, width) ∈ l.texts position →
    IsText (((bytes.drop (start - position)).take width).takeWhile (· != 0))

theorem Layout.TextsValid.tail {position : Nat} {k : FieldKind} {rest : Layout} {bytes : List UInt8}
    (h : Layout.TextsValid position (k :: rest) bytes) :
    Layout.TextsValid (position + k.width) rest (bytes.drop k.width) := by
  intro start width hmem
  have hle := Layout.le_of_mem_texts hmem
  have hat := h start width (List.mem_append_right _ hmem)
  have hsum : k.width + (start - (position + k.width)) = start - position := by
    simp only at hle
    omega
  rw [List.drop_drop, hsum]
  exact hat

theorem bytes_of_readRow {l : Layout} {position : Nat} {bytes : List UInt8} {r : Row l}
    (h : readRow position l bytes = .ok r) (htext : Layout.TextsValid position l bytes) :
    Row.bytes l r = Layout.cleaned l bytes := by
  induction l generalizing position bytes with
  | nil => rfl
  | cons k rest ih =>
    rw [readRow] at h
    split at h
    · cases h
    · next hlong =>
      cases hrow : readRow (position + k.width) rest (bytes.drop k.width) with
      | error need =>
        rw [hrow] at h
        cases h
      | ok vs =>
        rw [hrow] at h
        cases h
        have hlen : (bytes.take k.width).length = k.width := by
          rw [List.length_take]
          omega
        have hfield : k.bytes (k.ofBytes (bytes.take k.width)) = k.cleaned (bytes.take k.width) := by
          apply FieldKind.bytes_ofBytes hlen
          rintro w rfl
          have hat := htext position w (List.mem_cons_self ..)
          rw [Nat.sub_self] at hat
          exact hat
        rw [Row.bytes, Layout.cleaned, hfield, ih hrow htext.tail]

theorem FieldKind.length_cleaned (k : FieldKind) (bytes : List UInt8) :
    (k.cleaned bytes).length = bytes.length := by
  cases k with
  | text w => exact length_cutAtNul bytes
  | word16 | word32 | double => rfl

theorem Layout.length_cleaned {l : Layout} {bytes : List UInt8} (h : l.width ≤ bytes.length) :
    (l.cleaned bytes).length = l.width := by
  induction l generalizing bytes with
  | nil => rfl
  | cons k rest ih =>
    rw [Layout.width_cons] at h
    have hrest : Layout.width rest ≤ (bytes.drop k.width).length := by
      rw [List.length_drop]
      omega
    rw [Layout.cleaned, List.length_append, FieldKind.length_cleaned, ih hrest, Layout.width_cons,
      List.length_take]
    omega

theorem behindNul_append (a b : List (Nat × Nat)) (payload : List UInt8) (i : Nat) :
    behindNul (a ++ b) payload i = (behindNul a payload i || behindNul b payload i) := by
  rw [behindNul, List.any_append]
  rfl

/-- No text that starts further on has a byte behind its NUL here. -/
theorem behindNul_of_before {position : Nat} {l : Layout} {i : Nat} (h : i < position)
    (payload : List UInt8) : behindNul (l.texts position) payload i = false := by
  rw [behindNul, List.any_eq_false]
  rintro ⟨start, width⟩ hmem
  have hle : position ≤ start := Layout.le_of_mem_texts hmem
  have hnot : ¬ start ≤ i := by omega
  simp [hnot]

/-- The same byte by byte, of a payload of which `front` was read before. -/
theorem Layout.getElem?_cleaned {l : Layout} {bytes : List UInt8} (h : l.width ≤ bytes.length)
    (front : List UInt8) {i : Nat} (hi : i < l.width) :
    (l.cleaned bytes)[i]? = bytes[i]?.map fun b =>
      if behindNul (l.texts front.length) (front ++ bytes) (front.length + i) then 0 else b := by
  induction l generalizing bytes front i with
  | nil => exact absurd hi (Nat.not_lt_zero i)
  | cons k rest ih =>
    rw [Layout.width_cons] at h hi
    have hlen : (bytes.take k.width).length = k.width := by
      rw [List.length_take]
      omega
    rw [Layout.cleaned, Layout.texts, behindNul_append]
    by_cases hk : i < k.width
    · -- A byte of the first field: all other texts start further on.
      have hafter : behindNul (Layout.texts (front.length + k.width) rest) (front ++ bytes)
          (front.length + i) = false := behindNul_of_before (by omega) _
      rw [List.getElem?_append_left (by rw [FieldKind.length_cleaned, hlen]; exact hk), hafter,
        Bool.or_false]
      cases k with
      | text w =>
        have hw : i < w := hk
        have htake : ((front ++ bytes).take (front.length + i)).drop front.length =
            bytes.take i := by
          rw [List.take_length_add_append, List.drop_left]
        have hspan : behindNul ((FieldKind.text w).texts front.length) (front ++ bytes)
            (front.length + i) = (bytes.take i).contains 0 := by
          simp [behindNul, FieldKind.texts, htake, hw]
        simp only [hspan]
        rw [FieldKind.cleaned, getElem?_cutAtNul, List.take_take, List.getElem?_take_of_lt hk,
          Nat.min_eq_left (Nat.le_of_lt hk)]
      | word16 | word32 | double =>
        simp [FieldKind.cleaned, behindNul, FieldKind.texts, List.getElem?_take_of_lt hk]
    · -- A byte of a later field: the first one ends before it.
      have hi' : i - k.width < Layout.width rest := by omega
      have hrest : Layout.width rest ≤ (bytes.drop k.width).length := by
        rw [List.length_drop]
        omega
      have hin := ih hrest (front ++ bytes.take k.width) hi'
      have hfront : (front ++ bytes.take k.width).length = front.length + k.width := by
        rw [List.length_append, hlen]
      have hwhole : front ++ bytes.take k.width ++ bytes.drop k.width = front ++ bytes := by
        rw [List.append_assoc, List.take_append_drop]
      have hpos : front.length + k.width + (i - k.width) = front.length + i := by omega
      have hat : k.width + (i - k.width) = i := by omega
      rw [hfront, hwhole, hpos, List.getElem?_drop, hat] at hin
      have hbefore : behindNul (k.texts front.length) (front ++ bytes) (front.length + i) =
          false := by
        cases k with
        | text w =>
          have hw : ¬ i < w := hk
          simp [behindNul, FieldKind.texts, hw]
        | word16 | word32 | double => rfl
      rw [List.getElem?_append_right (by rw [FieldKind.length_cleaned, hlen]; omega),
        FieldKind.length_cleaned, hlen, hin, hbefore, Bool.false_or]

theorem MessageKind.cleaned_eq {k : MessageKind} {payload : List UInt8}
    (h : k.layout.width ≤ payload.length) :
    k.layout.cleaned payload = k.shape.cleaned payload := by
  apply List.ext_getElem?
  intro i
  rw [Shape.cleaned, k.width_shape, List.getElem?_mapIdx]
  by_cases hi : i < k.layout.width
  · have hat := Layout.getElem?_cleaned h [] hi
    rw [List.length_nil, List.nil_append, Nat.zero_add] at hat
    rw [hat, List.getElem?_take_of_lt hi]
    rfl
  · rw [List.getElem?_eq_none (by rw [Layout.length_cleaned h]; omega),
      List.getElem?_eq_none (by rw [List.length_take]; omega)]
    rfl

/-! ## Messages -/

namespace Message

theorem kind_ofRow (k : MessageKind) (r : Row k.layout) : (ofRow k r).kind = k := by
  cases k <;> rfl

theorem frame_ofRow (k : MessageKind) (r : Row k.layout) :
    (ofRow k r).frame = ⟨k.code, Row.bytes k.layout r⟩ := by
  cases k <;> rfl

theorem length_encode (m : Message) : m.encode.length = headerWidth + m.kind.layout.width := by
  rw [encode, length_bytes, Frame.size, frame, Row.length_bytes]

theorem kind_of_code {m : Message} {k : MessageKind} (h : m.kind.code = k.code) : m.kind = k := by
  have hm := m.kind.ofCode?_code
  rw [h, k.ofCode?_code] at hm
  exact (Option.some.inj hm).symm

section

variable {k : MessageKind} {payload : List UInt8}

theorem decode_of_readRow {r : Row k.layout} (h : readRow 0 k.layout payload = .ok r) :
    decode ⟨k.code, payload⟩ = .ok (ofRow k r) := by
  simp only [decode, k.ofCode?_code, h]

theorem decode_of_le (h : k.layout.width ≤ payload.length) :
    ∃ r, readRow 0 k.layout payload = .ok r ∧ decode ⟨k.code, payload⟩ = .ok (ofRow k r) := by
  obtain ⟨r, hr⟩ := readRow_of_le h 0
  exact ⟨r, hr, decode_of_readRow hr⟩

theorem decode_of_lt (h : payload.length < k.layout.width) :
    ∃ need, k.shape.ends.find? (payload.length < ·) = some need ∧
      decode ⟨k.code, payload⟩ =
        .error (.malformed (.shortPayload k.code need payload.length)) := by
  obtain ⟨need, hfind, hr⟩ := readRow_of_lt h 0
  rw [Nat.zero_add] at hfind
  exact ⟨need, hfind, by simp only [decode, k.ofCode?_code, hr]⟩

theorem le_of_decode {m : Message} (h : decode ⟨k.code, payload⟩ = .ok m) :
    k.layout.width ≤ payload.length := by
  apply Nat.le_of_not_lt
  intro hshort
  obtain ⟨need, -, herr⟩ := decode_of_lt hshort
  rw [herr] at h
  cases h

/-- What follows the fields does not matter. -/
theorem decode_take :
    decode ⟨k.code, payload.take k.layout.width⟩ = decode ⟨k.code, payload⟩ := by
  by_cases h : payload.length < k.layout.width
  · rw [List.take_of_length_le (by omega)]
  · obtain ⟨r, hr, hok⟩ := decode_of_le (Nat.le_of_not_lt h)
    rw [hok]
    exact decode_of_readRow (by rw [readRow_take, hr])

theorem encode_of_readRow {r : Row k.layout} (h : readRow 0 k.layout payload = .ok r)
    (hlong : k.layout.width ≤ payload.length) (htext : k.shape.TextsValid payload) :
    (ofRow k r).encode =
      littleEndian 2 (headerWidth + k.layout.width) ++ littleEndian 2 k.code.toNat ++
        k.shape.cleaned payload := by
  have hbytes := bytes_of_readRow h htext
  rw [MessageKind.cleaned_eq hlong] at hbytes
  have hsize : Frame.size ⟨k.code, Row.bytes k.layout r⟩ = headerWidth + k.layout.width := by
    rw [Frame.size, Row.length_bytes]
  rw [encode, frame_ofRow, Frame.bytes, hsize, hbytes]

end

end Message

/-- A frame is a message if its type is one of seven and its payload is as long as those that are
written for the type; the first field that does not fit in a shorter payload is missed, and other
types are unexpected. What follows the fields does not matter. A message whose texts are UTF-8 up
to their NUL is written as its frame was, but for the size, what follows the fields, and what stands
behind a NUL. -/
theorem decode_canonical (f : Frame) :
    (shape? f.code = none → Message.decode f = .error (.unexpected f.code)) ∧
      ∀ s, shape? f.code = some s →
        (∀ m : Message, m.kind.code = f.code → m.encode.length = headerWidth + s.width) ∧
        ((∃ m, Message.decode f = .ok m) ↔ s.width ≤ f.payload.length) ∧
        (f.payload.length < s.width →
          ∃ need, s.ends.find? (f.payload.length < ·) = some need ∧
            Message.decode f =
              .error (.malformed (.shortPayload f.code need f.payload.length))) ∧
        (∀ g : Frame, g.code = f.code → g.payload.take s.width = f.payload.take s.width →
          Message.decode g = Message.decode f) ∧
        ∀ m, Message.decode f = .ok m → m.kind.code = f.code ∧
          (s.TextsValid f.payload →
            m.encode =
              littleEndian 2 (headerWidth + s.width) ++ littleEndian 2 f.code.toNat ++
                s.cleaned f.payload) := by
  obtain ⟨code, payload⟩ := f
  simp only [shape?_eq]
  constructor
  · intro hnone
    simp only [Message.decode, Option.map_eq_none_iff.1 hnone]
  · intro s hs
    obtain ⟨k, hk, rfl⟩ := Option.map_eq_some_iff.1 hs
    obtain rfl := MessageKind.code_of_ofCode? hk
    rw [k.width_shape]
    refine ⟨?_, ⟨?_, ?_⟩, Message.decode_of_lt, ?_, ?_⟩
    · intro m hm
      rw [m.length_encode, Message.kind_of_code hm]
    · rintro ⟨m, hm⟩
      exact Message.le_of_decode hm
    · intro hlong
      obtain ⟨r, -, hok⟩ := Message.decode_of_le hlong
      exact ⟨_, hok⟩
    · rintro ⟨_, other⟩ rfl hsame
      rw [← Message.decode_take, hsame, Message.decode_take]
    · intro m hm
      have hlong := Message.le_of_decode hm
      obtain ⟨r, hr, hok⟩ := Message.decode_of_le hlong
      rw [hok] at hm
      cases hm
      exact ⟨by rw [Message.kind_ofRow], Message.encode_of_readRow hr hlong⟩

/-- A reason with other bytes behind its NUL and three more behind the fields; a payload that ends
inside its second field; a type that is none of the seven. -/
theorem decode_canonical_samples :
    let reason := Text.bytesOfText "bye"
    let f : Frame := ⟨5, reason ++ 0 :: List.replicate 60 65 ++ [1, 2, 3]⟩
    let short : Frame := ⟨2, [8, 0, 1]⟩
    (shape? 5 = some ⟨[64], [(0, 64)]⟩ ∧ (⟨[64], [(0, 64)]⟩ : Shape).TextsValid f.payload ∧
      Message.decode f = .ok (.logoff "bye") ∧
      (Message.logoff "bye").encode = [68, 0, 5, 0] ++ reason ++ List.replicate 61 0) ∧
    Message.decode short = .error (.malformed (.shortPayload 2 4 3)) ∧
    Message.decode ⟨9, []⟩ = .error (.unexpected 9) := by
  intro reason f short
  have hshape : shape? 5 = some ⟨[64], [(0, 64)]⟩ := rfl
  have hvalid : (⟨[64], [(0, 64)]⟩ : Shape).TextsValid f.payload := by
    intro start width hmem
    cases List.mem_singleton.1 hmem
    exact ⟨"bye", by decide⟩
  have hdecode : Message.decode f = .ok (.logoff "bye") := by rfl
  obtain ⟨-, -, -, -, hencode⟩ := (decode_canonical f).2 _ hshape
  obtain ⟨-, -, hneed, -, -⟩ := (decode_canonical short).2 _ (show shape? 2 = some _ from rfl)
  obtain ⟨need, hfind, herr⟩ := hneed (by decide)
  cases hfind
  have hbytes := (hencode _ hdecode).2 hvalid
  refine ⟨⟨hshape, hvalid, hdecode, ?_⟩, herr, (decode_canonical ⟨9, []⟩).1 rfl⟩
  rw [hbytes]
  decide

end Wire
end MarketFeed
