import Mathlib.Algebra.Group.Nat.Defs
import MarketFeed.Text.Utf8

/-!
# MarketFeed.Proofs.Text.Utf8

The lenient reader of UTF-8 on what the writer writes.

* `Completes` — the bytes that lead from inside a character to its end.
* `encodeChar_cases` — a character is one byte, or a first byte that begins it and bytes that
  complete it.
* `decodeLossy_encode_append` — what was written is read back, whatever follows it.
* `textOfBytes_bytesOfText`, `length_bytesOfText`, `zero_mem_bytesOfText` — the bytes of a text:
  what they say, how many they are, and that a zero stands for the character NUL alone.
* `decodeLossy_take_encodeChar` — the first bytes of a character, without the rest of it, are read
  as one U+FFFD.
* `Begun.Sound`, `nul_not_mem_decode` — no NUL is read of bytes above zero.
-/

namespace MarketFeed
namespace Text

/-! ## One character -/

/-- These bytes complete a begun character. -/
inductive Completes : Begun → List UInt8 → Char → Prop where
  | last {s : Begun} {b : UInt8} {c : Char} :
      s.continue? b = some (.whole c) → Completes s [b] c
  | more {s s' : Begun} {b : UInt8} {tail : List UInt8} {c : Char} :
      s.continue? b = some (.begun s') → Completes s' tail c → Completes s (b :: tail) c

theorem decodeBegun_append {s : Begun} {tail : List UInt8} {c : Char} (h : Completes s tail c)
    (rest : List UInt8) : decodeBegun s (tail ++ rest) = c :: decodeLossy rest := by
  induction h with
  | last hb => simp [decodeBegun, hb]
  | more hb _ ih => simpa [decodeBegun, hb] using ih

theorem continue?_last {value low high d : Nat} (hlow : low ≤ 0x80 + d) (hhigh : 0x80 + d ≤ high)
    (hd : d < 0x40) :
    Begun.continue? ⟨value, 1, low, high⟩ (0x80 + d).toUInt8 =
      some (.whole (Char.ofNat (value * 0x40 + d))) := by
  have hb : (0x80 + d).toUInt8.toNat = 0x80 + d :=
    UInt8.toNat_ofNat_of_lt (by change _ < 256; omega)
  have hsub : 0x80 + d - 0x80 = d := by omega
  simp only [Begun.continue?, hb, hlow, hhigh, hsub, and_self, if_true, Nat.le_refl]

theorem continue?_more {value owed low high d : Nat} (hlow : low ≤ 0x80 + d)
    (hhigh : 0x80 + d ≤ high) (hd : d < 0x40) :
    Begun.continue? ⟨value, owed + 2, low, high⟩ (0x80 + d).toUInt8 =
      some (.begun ⟨value * 0x40 + d, owed + 1, 0x80, 0xBF⟩) := by
  have hb : (0x80 + d).toUInt8.toNat = 0x80 + d :=
    UInt8.toNat_ofNat_of_lt (by change _ < 256; omega)
  have hsub : 0x80 + d - 0x80 = d := by omega
  have howed : ¬ owed + 2 ≤ 1 := by omega
  simp only [Begun.continue?, hb, hlow, hhigh, hsub, howed, and_self, if_true, if_false]
  rfl

theorem lead_one {n : Nat} (h : n < 0x80) : lead n.toUInt8 = .whole (Char.ofNat n) := by
  have hb : n.toUInt8.toNat = n :=
    UInt8.toNat_ofNat_of_lt (by change _ < 256; omega)
  simp only [lead, hb, h, if_true]

theorem lead_two {n : Nat} (h : 0x80 ≤ n) (hlt : n < 0x800) :
    lead (0xC0 + n / 0x40).toUInt8 = .begun ⟨n / 0x40, 1, 0x80, 0xBF⟩ := by
  have hb : (0xC0 + n / 0x40).toUInt8.toNat = 0xC0 + n / 0x40 :=
    UInt8.toNat_ofNat_of_lt (by change _ < 256; omega)
  have h₁ : ¬ 0xC0 + n / 0x40 < 0x80 := by omega
  have h₂ : ¬ 0xC0 + n / 0x40 < 0xC2 := by omega
  have h₃ : 0xC0 + n / 0x40 < 0xE0 := by omega
  have hv : 0xC0 + n / 0x40 - 0xC0 = n / 0x40 := by omega
  simp only [lead, hb, h₁, h₂, h₃, hv, if_true, if_false]

/-- The second of three bytes has its own range behind two of the first bytes. -/
theorem lead_three {n : Nat} (h : 0x800 ≤ n) (hlt : n < 0x10000)
    (hs : n < 0xD800 ∨ 0xDFFF < n) :
    ∃ low high, lead (0xE0 + n / 0x1000).toUInt8 = .begun ⟨n / 0x1000, 2, low, high⟩ ∧
      low ≤ 0x80 + n / 0x40 % 0x40 ∧ 0x80 + n / 0x40 % 0x40 ≤ high := by
  have hb : (0xE0 + n / 0x1000).toUInt8.toNat = 0xE0 + n / 0x1000 :=
    UInt8.toNat_ofNat_of_lt (by change _ < 256; omega)
  have hv : 0xE0 + n / 0x1000 - 0xE0 = n / 0x1000 := by omega
  have h₁ : ¬ 0xE0 + n / 0x1000 < 0x80 := by omega
  have h₂ : ¬ 0xE0 + n / 0x1000 < 0xC2 := by omega
  have h₃ : ¬ 0xE0 + n / 0x1000 < 0xE0 := by omega
  have h₄ : 0xE0 + n / 0x1000 < 0xF0 := by omega
  simp only [lead, hb, h₁, h₂, h₃, h₄, hv, if_true, if_false]
  by_cases hfirst : n / 0x1000 = 0
  · exact ⟨0xA0, 0xBF, by simp [hfirst], by omega, by omega⟩
  · by_cases hlast : n / 0x1000 = 0xD
    · exact ⟨0x80, 0x9F, by simp [hlast], by omega, by omega⟩
    · have h₅ : ¬ 0xE0 + n / 0x1000 = 0xE0 := by omega
      have h₆ : ¬ 0xE0 + n / 0x1000 = 0xED := by omega
      exact ⟨0x80, 0xBF, by rw [if_neg h₅, if_neg h₆], by omega, by omega⟩

/-- The second of four bytes has its own range behind two of the first bytes. -/
theorem lead_four {n : Nat} (h : 0x10000 ≤ n) (hlt : n < 0x110000) :
    ∃ low high, lead (0xF0 + n / 0x40000).toUInt8 = .begun ⟨n / 0x40000, 3, low, high⟩ ∧
      low ≤ 0x80 + n / 0x1000 % 0x40 ∧ 0x80 + n / 0x1000 % 0x40 ≤ high := by
  have hb : (0xF0 + n / 0x40000).toUInt8.toNat = 0xF0 + n / 0x40000 :=
    UInt8.toNat_ofNat_of_lt (by change _ < 256; omega)
  have hv : 0xF0 + n / 0x40000 - 0xF0 = n / 0x40000 := by omega
  have h₁ : ¬ 0xF0 + n / 0x40000 < 0x80 := by omega
  have h₂ : ¬ 0xF0 + n / 0x40000 < 0xC2 := by omega
  have h₃ : ¬ 0xF0 + n / 0x40000 < 0xE0 := by omega
  have h₄ : ¬ 0xF0 + n / 0x40000 = 0xE0 := by omega
  have h₅ : ¬ 0xF0 + n / 0x40000 = 0xED := by omega
  have h₆ : ¬ 0xF0 + n / 0x40000 < 0xF0 := by omega
  simp only [lead, hb, h₁, h₂, h₃, h₄, h₅, h₆, hv, if_false]
  by_cases hfirst : n / 0x40000 = 0
  · exact ⟨0x90, 0xBF, by simp [hfirst], by omega, by omega⟩
  · have h₇ : ¬ 0xF0 + n / 0x40000 = 0xF0 := by omega
    by_cases hlast : n / 0x40000 = 4
    · exact ⟨0x80, 0x8F, by simp [hlast], by omega, by omega⟩
    · have h₈ : 0xF0 + n / 0x40000 < 0xF4 := by omega
      exact ⟨0x80, 0xBF, by rw [if_neg h₇, if_pos h₈], by omega, by omega⟩

theorem toNat_lt (c : Char) : c.toNat < 0x110000 := by
  rcases c.valid with h | h
  · exact Nat.lt_trans h (by decide)
  · exact h.2

theorem not_surrogate (c : Char) : c.toNat < 0xD800 ∨ 0xDFFF < c.toNat := by
  rcases c.valid with h | h
  · exact .inl h
  · exact .inr h.1

/-- A character is one byte, or a first byte that begins it and bytes that complete it. -/
theorem encodeChar_cases (c : Char) :
    (∃ b, encodeChar c = [b] ∧ lead b = .whole c) ∨
      ∃ b tail s, encodeChar c = b :: tail ∧ lead b = .begun s ∧ Completes s tail c := by
  have hc : Char.ofNat c.toNat = c := Char.ofNat_toNat c
  rcases Nat.lt_or_ge c.toNat 0x80 with h₁ | h₁
  · refine .inl ⟨c.toNat.toUInt8, ?_, ?_⟩
    · simp only [encodeChar, h₁, if_true]
    · rw [lead_one h₁, hc]
  refine .inr ?_
  rcases Nat.lt_or_ge c.toNat 0x800 with h₂ | h₂
  · refine ⟨_, [(0x80 + c.toNat % 0x40).toUInt8], _, ?_, lead_two h₁ h₂, .last ?_⟩
    · simp only [encodeChar, Nat.not_lt.2 h₁, h₂, if_true, if_false]
    · rw [continue?_last (by omega) (by omega) (by omega), Nat.div_add_mod', hc]
  rcases Nat.lt_or_ge c.toNat 0x10000 with h₃ | h₃
  · obtain ⟨low, high, hlead, hlow, hhigh⟩ := lead_three h₂ h₃ (not_surrogate c)
    refine ⟨_, [(0x80 + c.toNat / 0x40 % 0x40).toUInt8, (0x80 + c.toNat % 0x40).toUInt8], _, ?_,
      hlead, .more (continue?_more hlow hhigh (by omega)) (.last ?_)⟩
    · simp only [encodeChar, Nat.not_lt.2 h₁, Nat.not_lt.2 h₂, h₃, if_true, if_false]
    · have hv : (c.toNat / 0x1000 * 0x40 + c.toNat / 0x40 % 0x40) * 0x40 + c.toNat % 0x40 =
          c.toNat := by omega
      rw [continue?_last (by omega) (by omega) (by omega), hv, hc]
  · obtain ⟨low, high, hlead, hlow, hhigh⟩ := lead_four h₃ (toNat_lt c)
    refine ⟨_, [(0x80 + c.toNat / 0x1000 % 0x40).toUInt8, (0x80 + c.toNat / 0x40 % 0x40).toUInt8,
      (0x80 + c.toNat % 0x40).toUInt8], _, ?_, hlead, .more (continue?_more hlow hhigh (by omega))
        (.more (continue?_more (by omega) (by omega) (by omega)) (.last ?_))⟩
    · simp only [encodeChar, Nat.not_lt.2 h₁, Nat.not_lt.2 h₂, Nat.not_lt.2 h₃, if_false]
    · have hv : ((c.toNat / 0x40000 * 0x40 + c.toNat / 0x1000 % 0x40) * 0x40 +
          c.toNat / 0x40 % 0x40) * 0x40 + c.toNat % 0x40 = c.toNat := by omega
      rw [continue?_last (by omega) (by omega) (by omega), hv, hc]

/-! ## Texts -/

theorem encode_cons (c : Char) (s : List Char) : encode (c :: s) = encodeChar c ++ encode s := rfl

/-- What was written is read back, whatever follows it. -/
theorem decodeLossy_encode_append (s : List Char) (rest : List UInt8) :
    decodeLossy (encode s ++ rest) = s ++ decodeLossy rest := by
  induction s with
  | nil => rfl
  | cons c s ih =>
    rw [encode_cons, List.append_assoc, List.cons_append, ← ih]
    rcases encodeChar_cases c with ⟨b, hb, hlead⟩ | ⟨b, tail, begun, hb, hlead, htail⟩
    · rw [hb, List.singleton_append, decodeLossy, hlead]
    · rw [hb, List.cons_append, decodeLossy, hlead]
      exact decodeBegun_append htail _

theorem textOfBytes_bytesOfText (s : String) : textOfBytes (bytesOfText s) = s := by
  have h := decodeLossy_encode_append s.toList []
  rw [List.append_nil] at h
  rw [textOfBytes, bytesOfText, h, decodeLossy, List.append_nil, String.ofList_toList]

theorem length_encodeChar (c : Char) : (encodeChar c).length = c.utf8Size := by
  have h₁ : c.val ≤ UInt32.ofNatLT 127 (by decide) ↔ c.toNat < 0x80 :=
    UInt32.le_iff_toNat_le.trans Nat.lt_succ_iff.symm
  have h₂ : c.val ≤ UInt32.ofNatLT 2047 (by decide) ↔ c.toNat < 0x800 :=
    UInt32.le_iff_toNat_le.trans Nat.lt_succ_iff.symm
  have h₃ : c.val ≤ UInt32.ofNatLT 65535 (by decide) ↔ c.toNat < 0x10000 :=
    UInt32.le_iff_toNat_le.trans Nat.lt_succ_iff.symm
  simp only [encodeChar, Char.utf8Size, h₁, h₂, h₃]
  split
  · rfl
  · split
    · rfl
    · split <;> rfl

theorem length_bytesOfText (s : String) : (bytesOfText s).length = s.utf8ByteSize := by
  have h : ∀ l : List Char, (encode l).length = (String.ofList l).utf8ByteSize := by
    intro l
    induction l with
    | nil => rfl
    | cons c l ih =>
      rw [encode_cons, List.length_append, length_encodeChar, ih, String.ofList_cons,
        String.utf8ByteSize_append, String.utf8ByteSize_singleton]
  rw [bytesOfText, h, String.ofList_toList]

theorem zero_ne_toUInt8 {n : Nat} (h : 0 < n) (hlt : n < 0x100) : 0 ≠ n.toUInt8 := by
  intro he
  have hn : n.toUInt8.toNat = n := UInt8.toNat_ofNat_of_lt hlt
  rw [← he] at hn
  exact absurd hn.symm (Nat.ne_of_gt h)

/-- A zero stands for NUL alone: all bytes of any other character are positive. -/
theorem zero_mem_encodeChar {c : Char} : 0 ∈ encodeChar c ↔ c = Char.ofNat 0 := by
  have hlt := toNat_lt c
  constructor
  · intro hz
    rcases Nat.eq_zero_or_pos c.toNat with h | h
    · rw [← Char.ofNat_toNat c, h]
    · exfalso
      simp only [encodeChar] at hz
      split at hz
      · rw [List.mem_singleton] at hz
        exact zero_ne_toUInt8 h (by omega) hz
      · split at hz
        · simp only [List.mem_cons, List.not_mem_nil, or_false] at hz
          rcases hz with hz | hz <;> exact zero_ne_toUInt8 (by omega) (by omega) hz
        · split at hz
          · simp only [List.mem_cons, List.not_mem_nil, or_false] at hz
            rcases hz with hz | hz | hz <;> exact zero_ne_toUInt8 (by omega) (by omega) hz
          · simp only [List.mem_cons, List.not_mem_nil, or_false] at hz
            rcases hz with hz | hz | hz | hz <;> exact zero_ne_toUInt8 (by omega) (by omega) hz
  · rintro rfl
    decide

theorem zero_mem_bytesOfText {s : String} : 0 ∈ bytesOfText s ↔ Char.ofNat 0 ∈ s.toList := by
  simp only [bytesOfText, encode, List.mem_flatMap, zero_mem_encodeChar]
  constructor
  · rintro ⟨c, hc, rfl⟩
    exact hc
  · intro hc
    exact ⟨_, hc, rfl⟩

/-! ## A character that is cut -/

theorem decodeBegun_take {s : Begun} {tail : List UInt8} {c : Char} (h : Completes s tail c)
    {n : Nat} (hlt : n < tail.length) : decodeBegun s (tail.take n) = [replacement] := by
  induction h generalizing n with
  | last _ =>
    obtain rfl : n = 0 := Nat.lt_one_iff.1 hlt
    rfl
  | more hb _ ih =>
    cases n with
    | zero => rfl
    | succ n =>
      rw [List.take_succ_cons, decodeBegun, hb]
      exact ih (Nat.lt_of_succ_lt_succ hlt)

/-- The first bytes of a character, but not all of them, are no character. -/
theorem decodeLossy_take_encodeChar {c : Char} {n : Nat} (hpos : 0 < n)
    (hlt : n < (encodeChar c).length) : decodeLossy ((encodeChar c).take n) = [replacement] := by
  obtain ⟨n, rfl⟩ := Nat.exists_eq_add_one.2 hpos
  rcases encodeChar_cases c with ⟨b, hb, -⟩ | ⟨b, tail, s, hb, hlead, htail⟩
  · rw [hb, List.length_singleton] at hlt
    omega
  · rw [hb] at hlt ⊢
    rw [List.take_succ_cons, decodeLossy, hlead]
    exact decodeBegun_take htail (Nat.lt_of_succ_lt_succ hlt)

/-! ## No NUL comes of other bytes -/

namespace Begun

/-- The least value that a begun character can come to. -/
def first (s : Begun) : Nat := (s.value * 0x40 + (s.low - 0x80)) * 0x40 ^ (s.owed - 1)

/-- The value behind the greatest one. -/
def past (s : Begun) : Nat := (s.value * 0x40 + (s.high - 0x80) + 1) * 0x40 ^ (s.owed - 1)

/-- All that it can come to are characters, and not NUL. -/
def Sound (s : Begun) : Prop :=
  0x80 ≤ s.low ∧ 0 < s.first ∧ (s.past ≤ 0xD800 ∨ 0xE000 ≤ s.first ∧ s.past ≤ 0x110000)

instance (s : Begun) : Decidable s.Sound := inferInstanceAs (Decidable (_ ∧ _))

/-- Where any further byte may follow, the range is cut up by its sixty-four values. -/
theorem first_inner (value owed : Nat) :
    first ⟨value, owed + 1, 0x80, 0xBF⟩ = value * 0x40 ^ (owed + 1) := by
  simp only [first, Nat.sub_self, Nat.add_zero, Nat.add_sub_cancel, Nat.pow_succ', Nat.mul_assoc]

theorem past_inner (value owed : Nat) :
    past ⟨value, owed + 1, 0x80, 0xBF⟩ = (value + 1) * 0x40 ^ (owed + 1) := by
  have hnext : value * 0x40 + (0xBF - 0x80) + 1 = (value + 1) * 0x40 := by omega
  simp only [past, hnext, Nat.add_sub_cancel, Nat.pow_succ', Nat.mul_assoc]

theorem Sound.of_range {s s' : Begun} (h : s.Sound) (hlow : 0x80 ≤ s'.low)
    (hfirst : s.first ≤ s'.first) (hpast : s'.past ≤ s.past) : s'.Sound := by
  obtain ⟨-, hpos, hrange⟩ := h
  exact ⟨hlow, by omega, by omega⟩

end Begun

theorem lead_sound {byte : UInt8} {s : Begun} (h : lead byte = .begun s) : s.Sound := by
  -- there are 256 first bytes
  have hall : ∀ n : Fin 256, (match lead (UInt8.ofFin n) with
      | .begun s => decide s.Sound
      | _ => true) = true := by
    decide +kernel
  have hbyte := hall byte.toFin
  rw [UInt8.ofFin_toFin, h] at hbyte
  exact of_decide_eq_true hbyte

theorem ofNat_ne_nul {n : Nat} (hpos : 0 < n) (hvalid : n < 0xD800 ∨ 0xE000 ≤ n ∧ n < 0x110000) :
    Char.ofNat n ≠ Char.ofNat 0 := by
  have hn : n.isValidChar := by
    rw [Nat.isValidChar]
    omega
  intro heq
  have hval : (Char.ofNat n).toNat = 0 := congrArg Char.toNat heq
  rw [Char.ofNat, dif_pos hn] at hval
  exact absurd hval (Nat.ne_of_gt hpos)

theorem lead_whole {byte : UInt8} {c : Char} (h : lead byte = .whole c) (hbyte : byte ≠ 0) :
    c ≠ Char.ofNat 0 := by
  unfold lead at h
  dsimp only at h
  split at h
  · rename_i hlt
    obtain rfl := Lead.whole.inj h
    have hpos : byte.toNat ≠ 0 := fun heq => hbyte (UInt8.toNat.inj heq)
    exact ofNat_ne_nul (by omega) (by omega)
  · repeat' split at h
    all_goals exact absurd h Lead.noConfusion

/-- A sound character goes on to a sound one, or ends as one that is not NUL. -/
theorem continue?_sound {s : Begun} {byte : UInt8} {next : Lead} (hs : s.Sound)
    (h : s.continue? byte = some next) :
    (∃ c, next = .whole c ∧ c ≠ Char.ofNat 0) ∨ ∃ s', next = .begun s' ∧ s'.Sound := by
  obtain ⟨value, owed, low, high⟩ := s
  have hbase : 0x80 ≤ low := hs.1
  unfold Begun.continue? at h
  dsimp only at h
  split at h
  · rename_i hrange
    split at h
    · rename_i hlast
      have hzero : owed - 1 = 0 := by omega
      obtain ⟨-, hpos, hvalid⟩ := hs
      simp only [Begun.first, Begun.past, hzero, Nat.pow_zero, Nat.mul_one] at hpos hvalid
      exact .inl ⟨_, (Option.some.inj h).symm, ofNat_ne_nul (by omega) (by omega)⟩
    · rename_i hmore
      obtain ⟨owed, rfl⟩ : ∃ n, owed = n + 2 := ⟨owed - 2, by omega⟩
      rw [Nat.add_sub_cancel (owed + 1) 1] at h
      refine .inr ⟨_, (Option.some.inj h).symm, hs.of_range (Nat.le_refl _) ?_ ?_⟩
      · rw [Begun.first_inner]
        exact Nat.mul_le_mul_right _ (Nat.add_le_add_left (Nat.sub_le_sub_right hrange.1 _) _)
      · rw [Begun.past_inner]
        exact Nat.mul_le_mul_right _ (Nat.succ_le_succ (Nat.add_le_add_left (Nat.sub_le_sub_right hrange.2 _) _))
  · cases h

/-- Bytes above zero say no NUL, from between characters or from inside one. -/
theorem nul_not_mem_decode (bytes : List UInt8) (h : 0 ∉ bytes) :
    Char.ofNat 0 ∉ decodeLossy bytes ∧
      ∀ s : Begun, s.Sound → Char.ofNat 0 ∉ decodeBegun s bytes := by
  have hrep : Char.ofNat 0 ≠ replacement := by decide
  induction bytes with
  | nil =>
    refine ⟨List.not_mem_nil, fun s _ => ?_⟩
    rw [decodeBegun, List.mem_singleton]
    exact hrep
  | cons b rest ih =>
    obtain ⟨hb, hrest⟩ : 0 ≠ b ∧ 0 ∉ rest := by simpa using h
    obtain ⟨ihBetween, ihInside⟩ := ih hrest
    have hbetween : Char.ofNat 0 ∉ decodeLossy (b :: rest) := by
      rw [decodeLossy]
      cases hlead : lead b with
      | whole c => exact fun hmem => (List.mem_cons.1 hmem).elim (lead_whole hlead hb.symm).symm ihBetween
      | begun s => exact ihInside s (lead_sound hlead)
      | stray => exact fun hmem => (List.mem_cons.1 hmem).elim hrep ihBetween
    refine ⟨hbetween, fun s hs => ?_⟩
    rw [decodeBegun]
    cases hnext : s.continue? b with
    | none =>
      rw [decodeLossy] at hbetween
      exact fun hmem => (List.mem_cons.1 hmem).elim hrep hbetween
    | some next =>
      rcases continue?_sound hs hnext with ⟨c, rfl, hc⟩ | ⟨s', rfl, hs'⟩
      · exact fun hmem => (List.mem_cons.1 hmem).elim hc.symm ihBetween
      · exact ihInside s' hs'

end Text
end MarketFeed
