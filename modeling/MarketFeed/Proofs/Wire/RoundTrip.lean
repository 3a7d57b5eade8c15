import MarketFeed.Proofs.Text.Utf8
import MarketFeed.Proofs.Wire.Stream

/-!
# MarketFeed.Proofs.Wire.RoundTrip

A message that is written and read back.

* `carriedText` — a text after its way through a field, `Message.mapTexts` — a message with its
  texts changed. The widths of the fields are named here again, apart from the layouts.
* `readRow_bytes` — the numbers of a row come back as they were, its texts as the field carries
  them.
* `carriedText_of_fits` — a text without NUL that is not longer than its field comes back whole.
* `decode_readFrame` — the same of messages: off any pieces, whatever follows the frame.
-/

namespace MarketFeed
namespace Wire

/-! ## Texts in a field -/

/-- A text after its way through a field of some width. -/
def carriedText (width : Nat) (s : String) : String := ofFixedText (fixedText width s)

/-- The text has room in a field of this width and no NUL that would end it. -/
def Fits (width : Nat) (s : String) : Prop := s.utf8ByteSize ≤ width ∧ Char.ofNat 0 ∉ s.toList

theorem bne_zero_of_not_mem {bytes : List UInt8} (h : 0 ∉ bytes) : ∀ b ∈ bytes, (b != 0) = true := by
  intro b hb
  rw [bne_iff_ne]
  rintro rfl
  exact h hb

theorem takeWhile_append_zero {bytes : List UInt8} (h : 0 ∉ bytes) (rest : List UInt8) :
    (bytes ++ 0 :: rest).takeWhile (· != 0) = bytes := by
  rw [List.takeWhile_append_of_pos (bne_zero_of_not_mem h), List.takeWhile_cons_of_neg (by decide),
    List.append_nil]

theorem takeWhile_append_zeros {bytes : List UInt8} (h : 0 ∉ bytes) (n : Nat) :
    (bytes ++ List.replicate n 0).takeWhile (· != 0) = bytes := by
  rw [List.takeWhile_append_of_pos (bne_zero_of_not_mem h)]
  cases n <;> simp [List.replicate_succ]

theorem carriedText_of_fits {width : Nat} {s : String} (h : Fits width s) :
    carriedText width s = s := by
  obtain ⟨hlen, hzero⟩ := h
  rw [← Text.length_bytesOfText] at hlen
  rw [carriedText, fixedText, ofFixedText, List.take_of_length_le hlen,
    takeWhile_append_zeros (mt Text.zero_mem_bytesOfText.1 hzero),
    Text.textOfBytes_bytesOfText]

/-- A field that ends inside a character. -/
example : carriedText 2 "aéb" = "a\uFFFD" := by decide

/-! ## Rows -/

/-- What a field gives back of its content. -/
def FieldKind.carried : (k : FieldKind) → k.Content → k.Content
  | .word16, n => n
  | .word32, n => n
  | .double, x => x
  | .text w, s => carriedText w s

def Row.carried : (l : Layout) → Row l → Row l
  | [], _ => ()
  | k :: rest, (v, vs) => (k.carried v, Row.carried rest vs)

theorem FieldKind.ofBytes_bytes (k : FieldKind) (v : k.Content) :
    k.ofBytes (k.bytes v) = k.carried v := by
  cases k with
  | word16 =>
    have h : UInt16.toNat v % Nat.pow 256 2 = UInt16.toNat v := Nat.mod_eq_of_lt (UInt16.toNat_lt v)
    simp only [FieldKind.bytes, FieldKind.ofBytes, FieldKind.carried,
      ofLittleEndian_littleEndian, h]
    exact UInt16.ofNat_toNat
  | word32 =>
    have h : UInt32.toNat v % Nat.pow 256 4 = UInt32.toNat v := Nat.mod_eq_of_lt (UInt32.toNat_lt v)
    simp only [FieldKind.bytes, FieldKind.ofBytes, FieldKind.carried,
      ofLittleEndian_littleEndian, h]
    exact UInt32.ofNat_toNat
  | double =>
    obtain ⟨bits⟩ := v
    have h : bits.toNat % Nat.pow 256 8 = bits.toNat := Nat.mod_eq_of_lt bits.toNat_lt
    simp only [FieldKind.bytes, FieldKind.ofBytes, FieldKind.carried,
      ofLittleEndian_littleEndian, h]
    rw [UInt64.ofNat_toNat]
  | text w => rfl

/-- The fields of a row are read one after another, each where it was written. -/
theorem readRow_bytes (l : Layout) (r : Row l) (position : Nat) (rest : List UInt8) :
    readRow position l (Row.bytes l r ++ rest) = .ok (Row.carried l r) := by
  induction l generalizing position with
  | nil => rfl
  | cons k l ih =>
    obtain ⟨v, vs⟩ := r
    have hlen : (k.bytes v).length = k.width := k.length_bytes v
    have hlong : ¬ (k.bytes v ++ (Row.bytes l vs ++ rest)).length < k.width := by
      rw [List.length_append, hlen]
      omega
    rw [Row.bytes, List.append_assoc, readRow, if_neg hlong, ← hlen, List.take_left,
      List.drop_left, ih]
    simp only [k.ofBytes_bytes, Row.carried]

/-! ## Messages -/

namespace Message

/-- The message with each of its texts changed as its width says. -/
def mapTexts (f : Nat → String → String) : Message → Message
  | .logonRequest version username password heartbeatSeconds clientName =>
    .logonRequest version (f 32 username) (f 32 password) heartbeatSeconds (f 32 clientName)
  | .logonResponse version result text => .logonResponse version result (f 64 text)
  | .heartbeat dropped => .heartbeat dropped
  | .logoff reason => .logoff (f 64 reason)
  | .subscribe id symbol exchange => .subscribe id (f 64 symbol) (f 32 exchange)
  | .subscriptionResponse id result reason => .subscriptionResponse id result (f 64 reason)
  | .tradeUpdate id symbol exchange price size time =>
    .tradeUpdate id (f 64 symbol) (f 32 exchange) price size time

/-- The texts of a message have room in their fields. -/
def TextsFit : Message → Prop
  | .logonRequest _ username password _ clientName =>
    Fits 32 username ∧ Fits 32 password ∧ Fits 32 clientName
  | .logonResponse _ _ text => Fits 64 text
  | .heartbeat _ => True
  | .logoff reason => Fits 64 reason
  | .subscribe _ symbol exchange => Fits 64 symbol ∧ Fits 32 exchange
  | .subscriptionResponse _ _ reason => Fits 64 reason
  | .tradeUpdate _ symbol exchange _ _ _ => Fits 64 symbol ∧ Fits 32 exchange

theorem kind_mapTexts (f : Nat → String → String) (m : Message) : (m.mapTexts f).kind = m.kind := by
  cases m <;> rfl

theorem ofRow_carried (m : Message) :
    ofRow m.kind (Row.carried m.kind.layout m.row) = m.mapTexts carriedText := by
  cases m <;> rfl

theorem mapTexts_of_fit {m : Message} (h : m.TextsFit) : m.mapTexts carriedText = m := by
  cases m with
  | logonRequest version username password heartbeatSeconds clientName =>
    obtain ⟨hu, hp, hc⟩ := h
    rw [mapTexts, carriedText_of_fits hu, carriedText_of_fits hp, carriedText_of_fits hc]
  | logonResponse version result text => rw [mapTexts, carriedText_of_fits h]
  | heartbeat dropped => rfl
  | logoff reason => rw [mapTexts, carriedText_of_fits h]
  | subscribe id symbol exchange =>
    rw [mapTexts, carriedText_of_fits h.1, carriedText_of_fits h.2]
  | subscriptionResponse id result reason => rw [mapTexts, carriedText_of_fits h]
  | tradeUpdate id symbol exchange price size time =>
    rw [mapTexts, carriedText_of_fits h.1, carriedText_of_fits h.2]

theorem decode_frame (m : Message) : decode m.frame = .ok (m.mapTexts carriedText) := by
  have hrow := readRow_bytes m.kind.layout m.row 0 []
  rw [List.append_nil] at hrow
  simp only [decode, frame, MessageKind.ofCode?_code, hrow, ofRow_carried]

end Message

/-- The frame of a message, off any pieces and whatever follows it, is read and decoded: a message
of the same kind, its numbers as they were and each of its texts as the field carries it. A message
whose texts have room in their fields comes back itself. -/
theorem decode_readFrame (m : Message) (rest : List UInt8) (pieces : List (List UInt8))
    (h : pieces.flatten = m.encode ++ rest) :
    ∃ f left m', readFrame pieces = .ok (f, left) ∧ left.flatten = rest ∧
      Message.decode f = .ok m' ∧ m'.kind = m.kind ∧ m' = m.mapTexts carriedText ∧
      (m.TextsFit → m' = m) := by
  have hread := readFrame_eq pieces
  rw [h, Message.encode, next_bytes_append (size_frame_lt m)] at hread
  obtain ⟨left, hok, hleft⟩ := hread
  exact ⟨m.frame, left, _, hok, hleft, m.decode_frame, m.kind_mapTexts _, rfl,
    Message.mapTexts_of_fit⟩

/-- A subscription whose exchange fills its field, with no zero behind it, in two pieces. -/
theorem decode_readFrame_full_width :
    let m := Message.subscribe 7 "ÄPFEL" "0123456789abcdef0123456789abcdef"
    [m.encode.take 5, m.encode.drop 5].flatten = m.encode ++ [] ∧ m.TextsFit ∧
      ∃ f left, readFrame [m.encode.take 5, m.encode.drop 5] = .ok (f, left) ∧
        Message.decode f = .ok m := by
  intro m
  have hpieces : [m.encode.take 5, m.encode.drop 5].flatten = m.encode ++ [] := by
    rw [List.flatten_cons, List.flatten_singleton, List.take_append_drop, List.append_nil]
  have hfit : m.TextsFit := ⟨⟨by decide, by decide⟩, by decide, by decide⟩
  obtain ⟨f, left, m', hread, -, hdecode, -, -, hsame⟩ := decode_readFrame m [] _ hpieces
  rw [hsame hfit] at hdecode
  exact ⟨hpieces, hfit, f, left, hread, hdecode⟩

end Wire
end MarketFeed
