import Mathlib.Algebra.GroupWithZero.Nat
import Mathlib.Data.List.TakeWhile
import MarketFeed.Proofs.Wire.RoundTrip

/-!
# MarketFeed.Proofs.Wire.FixedText

What a field of a fixed width makes of a text.

* `cutText` — the text before its first NUL, if that has room in the field; otherwise as many whole
  characters as have room, and U+FFFD where the field ends inside the next one.
* `longest_wholeChars` — there is no longer beginning that has room.
* `carriedText_eq` — this is what comes back from a field, `cutText_cutText` — and it is not cut
  again.
* `fields_carry_texts` — a field behind other bytes, and what is read of the bytes of any field.
-/

namespace MarketFeed
namespace Wire

/-! ## Whole characters -/

/-- The number of bytes of some characters. -/
def utf8Length (s : List Char) : Nat := (s.map Char.utf8Size).sum

/-- The characters at the beginning for which there is room, up to the first that has none. -/
def wholeChars (room : Nat) : List Char → List Char
  | [] => []
  | c :: rest => if c.utf8Size ≤ room then c :: wholeChars (room - c.utf8Size) rest else []

/-- `p` is the longest beginning of `s` for which there is room. -/
structure Longest (room : Nat) (s p : List Char) : Prop where
  isPrefix : p <+: s
  fits : utf8Length p ≤ room
  longest : ∀ q, q <+: s → utf8Length q ≤ room → q <+: p

section

variable {room : Nat} {s p rest : List Char} {c : Char}

theorem utf8Length_cons : utf8Length (c :: s) = c.utf8Size + utf8Length s := rfl

theorem utf8Length_append : utf8Length (s ++ p) = utf8Length s + utf8Length p := by
  rw [utf8Length, List.map_append, List.sum_append]
  rfl

theorem length_encode (s : List Char) : (Text.encode s).length = utf8Length s := by
  induction s with
  | nil => rfl
  | cons c s ih =>
    rw [Text.encode_cons, List.length_append, Text.length_encodeChar, ih, utf8Length_cons]

theorem longest_wholeChars (room : Nat) (s : List Char) : Longest room s (wholeChars room s) := by
  induction s generalizing room with
  | nil => exact ⟨List.prefix_refl _, Nat.zero_le _, fun q hq _ => hq⟩
  | cons c rest ih =>
    rw [wholeChars]
    split
    · rename_i hroom
      obtain ⟨hbegins, hfits, hlongest⟩ := ih (room - c.utf8Size)
      refine ⟨(List.prefix_cons_inj c).2 hbegins, ?_, fun q hq hle => ?_⟩
      · rw [utf8Length_cons]
        omega
      · cases q with
        | nil => exact List.nil_prefix
        | cons d q =>
          obtain ⟨rfl, hrest⟩ := List.cons_prefix_cons.1 hq
          rw [utf8Length_cons] at hle
          exact (List.prefix_cons_inj d).2 (hlongest q hrest (by omega))
    · rename_i hroom
      refine ⟨List.nil_prefix, Nat.zero_le _, fun q hq hle => ?_⟩
      cases q with
      | nil => exact List.prefix_refl _
      | cons d q =>
        obtain ⟨rfl, -⟩ := List.cons_prefix_cons.1 hq
        rw [utf8Length_cons] at hle
        omega

/-- The character behind the beginning that has room has none. -/
theorem wholeChars_of_lt (h : room < utf8Length s) :
    ∃ c rest, s = wholeChars room s ++ c :: rest ∧
      room < utf8Length (wholeChars room s) + c.utf8Size := by
  obtain ⟨hbegins, hfits, hlongest⟩ := longest_wholeChars room s
  obtain ⟨tail, htail⟩ := hbegins
  cases tail with
  | nil =>
    rw [List.append_nil] at htail
    rw [htail] at hfits
    omega
  | cons c rest =>
    refine ⟨c, rest, htail.symm, Nat.lt_of_not_le fun hle => ?_⟩
    have hnext : wholeChars room s ++ [c] <+: s := ⟨rest, by rw [List.append_assoc]; exact htail⟩
    have hlen := (hlongest _ hnext (by
      rw [utf8Length_append]
      exact hle)).length_le
    rw [List.length_append, List.length_singleton] at hlen
    omega

theorem wholeChars_append_cons (hfits : utf8Length p ≤ room)
    (hlt : room < utf8Length p + c.utf8Size) : wholeChars room (p ++ c :: rest) = p := by
  induction p generalizing room with
  | nil =>
    have hc : ¬ c.utf8Size ≤ room := Nat.not_le.2 (by simpa [utf8Length] using hlt)
    rw [List.nil_append, wholeChars, if_neg hc]
  | cons d p ih =>
    rw [utf8Length_cons] at hfits hlt
    rw [List.cons_append, wholeChars, if_pos (by omega), ih (by omega) (by omega)]

end

/-! ## What is read of the bytes that have room -/

/-- The characters for which there is room, and U+FFFD for the first bytes of the next one. -/
def cutChars (room : Nat) (s : List Char) : List Char :=
  if utf8Length s ≤ room then s
  else if utf8Length (wholeChars room s) < room then wholeChars room s ++ [Text.replacement]
  else wholeChars room s

theorem decodeLossy_encode (s : List Char) : Text.decodeLossy (Text.encode s) = s := by
  have h := Text.decodeLossy_encode_append s []
  rwa [List.append_nil, Text.decodeLossy, List.append_nil] at h

theorem decodeLossy_take_encode (room : Nat) (s : List Char) :
    Text.decodeLossy ((Text.encode s).take room) = cutChars room s := by
  rw [cutChars]
  split
  · rename_i hfits
    rw [List.take_of_length_le (by rwa [length_encode]), decodeLossy_encode]
  · rename_i hlong
    obtain ⟨c, rest, hsplit, hlt⟩ := wholeChars_of_lt (Nat.lt_of_not_le hlong)
    have hfits := (longest_wholeChars room s).fits
    generalize wholeChars room s = p at hsplit hlt hfits
    subst hsplit
    -- the field ends behind `p`, or inside `c`
    have htake : (Text.encode (p ++ c :: rest)).take room =
        Text.encode p ++ (Text.encodeChar c).take (room - utf8Length p) := by
      have hbytes : Text.encode (p ++ c :: rest) =
          Text.encode p ++ (Text.encodeChar c ++ Text.encode rest) := by
        rw [Text.encode, List.flatMap_append, List.flatMap_cons]
        rfl
      rw [hbytes, List.take_append, List.take_of_length_le (by rwa [length_encode]), length_encode,
        List.take_append_of_le_length (by rw [Text.length_encodeChar]; omega)]
    rw [htake, Text.decodeLossy_encode_append]
    split
    · rename_i hinside
      rw [Text.decodeLossy_take_encodeChar (by omega) (by rw [Text.length_encodeChar]; omega)]
    · rename_i hend
      rw [Nat.sub_eq_zero_of_le (Nat.not_lt.1 hend), List.take_zero, Text.decodeLossy,
        List.append_nil]

theorem cutChars_of_le {room : Nat} {s : List Char} (h : utf8Length s ≤ room) :
    cutChars room s = s := if_pos h

theorem cutChars_cutChars (room : Nat) (s : List Char) :
    cutChars room (cutChars room s) = cutChars room s := by
  by_cases hs : utf8Length s ≤ room
  · rw [cutChars_of_le hs, cutChars_of_le hs]
  have hfits := (longest_wholeChars room s).fits
  by_cases hlt : utf8Length (wholeChars room s) < room
  · have hcut : cutChars room s = wholeChars room s ++ [Text.replacement] := by
      rw [cutChars, if_neg hs, if_pos hlt]
    rw [hcut]
    -- U+FFFD has room, or it is cut like the character that it stands for
    by_cases hroom : utf8Length (wholeChars room s ++ [Text.replacement]) ≤ room
    · exact cutChars_of_le hroom
    · have hlong : room < utf8Length (wholeChars room s) + Text.replacement.utf8Size := by
        rw [utf8Length_append] at hroom
        exact Nat.lt_of_not_le hroom
      rw [cutChars, if_neg hroom, wholeChars_append_cons hfits hlong, if_pos hlt]
  · have hcut : cutChars room s = wholeChars room s := by
      rw [cutChars, if_neg hs, if_neg hlt]
    rw [hcut, cutChars_of_le hfits]

/-! ## Texts -/

/-- The characters before the first NUL. -/
def beforeNul (s : String) : List Char := s.toList.takeWhile (· != Char.ofNat 0)

/-- What a field makes of a text. -/
def cutText (width : Nat) (s : String) : String := .ofList (cutChars width (beforeNul s))

theorem mem_cutChars {room : Nat} {s : List Char} {c : Char} (h : c ∈ cutChars room s) :
    c ∈ s ∨ c = Text.replacement := by
  have hbegins := (longest_wholeChars room s).isPrefix
  rw [cutChars] at h
  split at h
  · exact .inl h
  · split at h
    · rcases List.mem_append.1 h with h | h
      · exact .inl (hbegins.subset h)
      · exact .inr (List.mem_singleton.1 h)
    · exact .inl (hbegins.subset h)

theorem nul_not_mem_beforeNul (s : String) : Char.ofNat 0 ∉ beforeNul s := by
  intro h
  simpa using List.mem_takeWhile_imp h

theorem beforeNul_of_not_mem {l : List Char} (h : Char.ofNat 0 ∉ l) :
    beforeNul (.ofList l) = l := by
  rw [beforeNul, String.toList_ofList, List.takeWhile_eq_self_iff]
  intro c hc
  rw [bne_iff_ne]
  rintro rfl
  exact h hc

/-- A text that went through a field once goes through it as it is. -/
theorem cutText_cutText (width : Nat) (s : String) :
    cutText width (cutText width s) = cutText width s := by
  have hnul : Char.ofNat 0 ∉ cutChars width (beforeNul s) := by
    intro h
    rcases mem_cutChars h with h | h
    · exact nul_not_mem_beforeNul s h
    · exact absurd h (by decide)
  rw [cutText, cutText, beforeNul_of_not_mem hnul, cutChars_cutChars]

/-- Behind the characters before the first NUL comes that NUL, if anything. -/
theorem toList_eq (s : String) :
    s.toList = beforeNul s ∨ ∃ rest, s.toList = beforeNul s ++ Char.ofNat 0 :: rest := by
  have hsplit : beforeNul s ++ s.toList.dropWhile (· != Char.ofNat 0) = s.toList :=
    List.takeWhile_append_dropWhile
  cases hdrop : s.toList.dropWhile (· != Char.ofNat 0) with
  | nil =>
    rw [hdrop, List.append_nil] at hsplit
    exact .inl hsplit.symm
  | cons c rest =>
    have hc : c = Char.ofNat 0 := by
      have hne : s.toList.dropWhile (· != Char.ofNat 0) ≠ [] := hdrop ▸ List.cons_ne_nil _ _
      have hhead := List.head_dropWhile_not _ hne
      simpa [hdrop] using hhead
    rw [hdrop, hc] at hsplit
    exact .inr ⟨rest, hsplit.symm⟩

/-- The bytes of a field up to its first zero. -/
theorem takeWhile_fixedText (width : Nat) (s : String) :
    (fixedText width s).takeWhile (· != 0) = (Text.encode (beforeNul s)).take width := by
  have hpos : 0 ∉ (Text.encode (beforeNul s)).take width := by
    intro h
    have hzero : 0 ∈ Text.bytesOfText (.ofList (beforeNul s)) := by
      rw [Text.bytesOfText, String.toList_ofList]
      exact List.mem_of_mem_take h
    rw [Text.zero_mem_bytesOfText, String.toList_ofList] at hzero
    exact nul_not_mem_beforeNul s hzero
  rcases toList_eq s with heq | ⟨rest, heq⟩
  · simp only [fixedText, Text.bytesOfText, heq]
    exact takeWhile_append_zeros hpos _
  · have hbytes : Text.encode (beforeNul s ++ Char.ofNat 0 :: rest) =
        Text.encode (beforeNul s) ++ 0 :: Text.encode rest := by
      rw [Text.encode, List.flatMap_append, List.flatMap_cons]
      rfl
    simp only [fixedText, Text.bytesOfText, heq, hbytes, List.take_append, List.append_assoc]
    cases width - (Text.encode (beforeNul s)).length with
    | zero => exact takeWhile_append_zeros hpos _
    | succ room =>
      rw [List.take_succ_cons, List.cons_append]
      exact takeWhile_append_zero hpos _

theorem carriedText_eq (width : Nat) (s : String) : carriedText width s = cutText width s := by
  rw [carriedText, ofFixedText, takeWhile_fixedText, Text.textOfBytes, decodeLossy_take_encode,
    cutText]

/-! ## Fields -/

theorem nul_not_mem_ofFixedText (field : List UInt8) :
    Char.ofNat 0 ∉ (ofFixedText field).toList := by
  have hzero : 0 ∉ field.takeWhile (· != 0) := by
    intro h
    simpa using List.mem_takeWhile_imp h
  rw [ofFixedText, Text.textOfBytes, String.toList_ofList]
  exact (Text.nul_not_mem_decode _ hzero).1

/-- A zero, and whatever stands behind it, changes nothing of a text. -/
theorem ofFixedText_append_zero (field rest : List UInt8) :
    ofFixedText (field.takeWhile (· != 0) ++ 0 :: rest) = ofFixedText field := by
  have hzero : 0 ∉ field.takeWhile (· != 0) := by
    intro h
    simpa using List.mem_takeWhile_imp h
  rw [ofFixedText, takeWhile_append_zero hzero, ofFixedText]

/-- A text that is written behind some bytes takes exactly the bytes of its field and leaves those
before it as they were. What is read of the field is the text up to its first NUL, if that has room;
otherwise the longest beginning of whole characters that has room, with one U+FFFD behind it exactly
if some bytes of the field are left for a part of the next character. A text that comes from a field
goes through such a field again as it is. Of any field only what stands before its first zero is
read, and no NUL is read of it. -/
theorem fields_carry_texts (width : Nat) :
    (∀ (buffer : List UInt8) (s : String),
      (buffer ++ fixedText width s).length = buffer.length + width ∧
      (buffer ++ fixedText width s).take buffer.length = buffer ∧
      ofFixedText ((buffer ++ fixedText width s).drop buffer.length) = cutText width s) ∧
    (∀ s : String, ∃ whole, Longest width (beforeNul s) whole ∧
      cutText width s = String.ofList
        (if utf8Length (beforeNul s) ≤ width then beforeNul s
        else if utf8Length whole < width then whole ++ [Text.replacement] else whole)) ∧
    (∀ s : String, cutText width (cutText width s) = cutText width s) ∧
    ∀ field rest : List UInt8,
      ofFixedText (field.takeWhile (· != 0)) = ofFixedText field ∧
      ofFixedText (field.takeWhile (· != 0) ++ 0 :: rest) = ofFixedText field ∧
      Char.ofNat 0 ∉ (ofFixedText field).toList := by
  refine ⟨fun buffer s => ⟨?_, ?_, ?_⟩, fun s => ?_, cutText_cutText width, fun field rest => ?_⟩
  · rw [List.length_append, length_fixedText]
  · exact List.take_left
  · rw [List.drop_left]
    exact carriedText_eq width s
  · exact ⟨wholeChars width (beforeNul s), longest_wholeChars width _, rfl⟩
  · refine ⟨?_, ofFixedText_append_zero field rest, nul_not_mem_ofFixedText field⟩
    rw [ofFixedText, ofFixedText, List.takeWhile_idem]

/-- The field ends inside the second character, and inside the sign that stands for it. -/
example : cutText 2 "aéb" = "a\uFFFD" ∧ cutText 2 "a\uFFFD" = "a\uFFFD" := by decide

end Wire
end MarketFeed
