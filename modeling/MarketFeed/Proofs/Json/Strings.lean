import MarketFeed.Json.Reader

/-!
# MarketFeed.Proofs.Json.Strings

The texts between the quotes of JSON strings.

* `StringSays` — what they consist of, and what they say: nothing if a surrogate has no partner.
* `Closed` — no quote in them ends the string.
* `unescape_eq_some_iff` — the closed texts that are read are these and no others.
-/

namespace MarketFeed
namespace Json

/-- A text begins with the escape of a low surrogate. -/
def BeginsLow (cs : List Char) : Prop :=
  ∃ a b c d n rest, cs = '\\' :: 'u' :: a :: b :: c :: d :: rest ∧ hex4? a b c d = some n ∧
    isLowSurrogate n = true

/-- Between the quotes stand characters from the blank on but for the quote and the backslash,
backslashes with one of eight letters, and 16-bit units in hexadecimal. A high and a low surrogate
next to each other are one character; a surrogate without its partner is none. -/
inductive StringSays : List Char → Option (List Char) → Prop
  | nil : StringSays [] (some [])
  | plain {c : Char} {cs : List Char} {s : Option (List Char)} (hquote : c ≠ '"')
      (hslash : c ≠ '\\') (hcontrol : 0x20 ≤ c.toNat) (h : StringSays cs s) :
      StringSays (c :: cs) (s.map (c :: ·))
  | escape {c e : Char} {cs : List Char} {s : Option (List Char)} (he : simpleEscape? c = some e)
      (h : StringSays cs s) : StringSays ('\\' :: c :: cs) (s.map (e :: ·))
  | unit {a b c d : Char} {n : Nat} {cs : List Char} {s : Option (List Char)}
      (hn : hex4? a b c d = some n) (hhigh : isHighSurrogate n = false)
      (hlow : isLowSurrogate n = false) (h : StringSays cs s) :
      StringSays ('\\' :: 'u' :: a :: b :: c :: d :: cs) (s.map (Char.ofNat n :: ·))
  | pair {a b c d a' b' c' d' : Char} {high low : Nat} {cs : List Char} {s : Option (List Char)}
      (hn : hex4? a b c d = some high) (hhigh : isHighSurrogate high = true)
      (hn' : hex4? a' b' c' d' = some low) (hlow : isLowSurrogate low = true)
      (h : StringSays cs s) :
      StringSays
        ('\\' :: 'u' :: a :: b :: c :: d :: '\\' :: 'u' :: a' :: b' :: c' :: d' :: cs)
        (s.map (paired high low :: ·))
  | high {a b c d : Char} {n : Nat} {cs : List Char} {s : Option (List Char)}
      (hn : hex4? a b c d = some n) (hhigh : isHighSurrogate n = true) (hcs : ¬BeginsLow cs)
      (h : StringSays cs s) : StringSays ('\\' :: 'u' :: a :: b :: c :: d :: cs) none
  | low {a b c d : Char} {n : Nat} {cs : List Char} {s : Option (List Char)}
      (hn : hex4? a b c d = some n) (hlow : isLowSurrogate n = true) (h : StringSays cs s) :
      StringSays ('\\' :: 'u' :: a :: b :: c :: d :: cs) none

/-! ## One step of reading -/

section

variable {a b c d : Char} {n : Nat} {high : Option Nat} {cs : List Char}

theorem not_isLow_of_isHigh (h : isHighSurrogate n = true) : isLowSurrogate n = false := by
  simp only [isHighSurrogate, isLowSurrogate, Bool.and_eq_true, decide_eq_true_eq,
    Bool.and_eq_false_iff, decide_eq_false_iff_not] at *
  omega

theorem unescapeAfter_high (hn : hex4? a b c d = some n) (hhigh : isHighSurrogate n = true) :
    unescapeAfter high ('\\' :: 'u' :: a :: b :: c :: d :: cs) =
      (unescapeAfter (some n) cs).map fun r => if high.isSome then none else r := by
  rw [unescapeAfter, hn]
  exact if_pos hhigh

theorem unescapeAfter_low (hn : hex4? a b c d = some n) (hlow : isLowSurrogate n = true) :
    unescapeAfter high ('\\' :: 'u' :: a :: b :: c :: d :: cs) =
      (unescapeAfter none cs).map fun r =>
        match high with
        | some h => r.map (paired h n :: ·)
        | none => none := by
  have hhigh : isHighSurrogate n ≠ true := fun h => by
    rw [not_isLow_of_isHigh h] at hlow
    cases hlow
  rw [unescapeAfter, hn]
  exact (if_neg hhigh).trans (if_pos hlow)

theorem unescapeAfter_unit (hn : hex4? a b c d = some n) (hhigh : isHighSurrogate n = false)
    (hlow : isLowSurrogate n = false) :
    unescapeAfter high ('\\' :: 'u' :: a :: b :: c :: d :: cs) =
      (unescapeAfter none cs).map (putChar high (Char.ofNat n)) := by
  rw [unescapeAfter, hn]
  dsimp only
  rw [hhigh, hlow, if_neg Bool.false_ne_true, if_neg Bool.false_ne_true]

theorem unescapeAfter_escape {e : Char} (he : simpleEscape? c = some e) :
    unescapeAfter high ('\\' :: c :: cs) = (unescapeAfter none cs).map (putChar high e) := by
  have hu : c ≠ 'u' := by
    rintro rfl
    simp [simpleEscape?] at he
  rw [unescapeAfter, he]
  exact fun _ _ _ _ _ h => absurd h hu

theorem unescapeAfter_plain (hslash : c ≠ '\\') (hcontrol : 0x20 ≤ c.toNat) :
    unescapeAfter high (c :: cs) = (unescapeAfter none cs).map (putChar high c) := by
  rw [unescapeAfter, if_neg (by omega)]
  all_goals
    intros
    exact hslash (by assumption)

end

/-- How a text begins that can be read. -/
theorem piece_of_isSome {high : Option Nat} {cs : List Char}
    (h : (unescapeAfter high cs).isSome = true) :
    cs = [] ∨
      (∃ a b c d n rest, cs = '\\' :: 'u' :: a :: b :: c :: d :: rest ∧ hex4? a b c d = some n) ∨
      (∃ c e rest, cs = '\\' :: c :: rest ∧ simpleEscape? c = some e) ∨
      ∃ c rest, cs = c :: rest ∧ c ≠ '\\' ∧ 0x20 ≤ c.toNat := by
  unfold unescapeAfter at h
  split at h
  · exact .inl rfl
  · next a b c d rest =>
    cases hn : hex4? a b c d with
    | none =>
      rw [hn] at h
      cases h
    | some n => exact .inr (.inl ⟨a, b, c, d, n, rest, rfl, hn⟩)
  · next c rest _ =>
    cases he : simpleEscape? c with
    | none =>
      rw [he] at h
      cases h
    | some e => exact .inr (.inr (.inl ⟨c, e, rest, rfl, he⟩))
  · cases h
  · next c rest _ hescape hslash =>
    split at h
    · cases h
    · next hcontrol =>
      refine .inr (.inr (.inr ⟨c, rest, rfl, ?_, by omega⟩))
      rintro rfl
      cases rest with
      | nil => exact hslash rfl rfl
      | cons d rest => exact hescape d rest rfl rfl

/-- Whether a text can be read does not depend on what came before it. -/
theorem isSome_unescapeAfter (high : Option Nat) (cs : List Char) :
    (unescapeAfter high cs).isSome = (unescapeAfter none cs).isSome := by
  unfold unescapeAfter
  split
  · rfl
  · split
    · rfl
    · split
      · simp
      · split <;> simp
  · split <;> simp
  · rfl
  · split <;> simp

/-- What was read is dropped. -/
theorem map_eq_some_none {α β : Type} {o : Option α} {f : α → Option β}
    (h : (o.map f).isSome = true) (hf : ∀ r, f r = none) : o.map f = some none := by
  obtain ⟨r, rfl⟩ := Option.isSome_iff_exists.1 ((Option.isSome_map ..).symm.trans h)
  exact congrArg some (hf r)

/-- A high surrogate needs a low one right behind it. -/
theorem unescapeAfter_some_of_not_low {m : Nat} {cs : List Char} (hcs : ¬BeginsLow cs)
    (h : (unescapeAfter none cs).isSome = true) : unescapeAfter (some m) cs = some none := by
  rw [← isSome_unescapeAfter (some m)] at h
  obtain rfl | ⟨a, b, c, d, n, rest, rfl, hn⟩ | ⟨c, e, rest, rfl, he⟩ |
    ⟨c, rest, rfl, hslash, hcontrol⟩ := piece_of_isSome h
  · rfl
  · by_cases hlow : isLowSurrogate n = true
    · exact absurd ⟨a, b, c, d, n, rest, rfl, hn, hlow⟩ hcs
    · by_cases hhigh : isHighSurrogate n = true
      · rw [unescapeAfter_high hn hhigh] at h ⊢
        exact map_eq_some_none h fun _ => rfl
      · rw [unescapeAfter_unit hn (by simpa using hhigh) (by simpa using hlow)] at h ⊢
        exact map_eq_some_none h fun _ => rfl
  · rw [unescapeAfter_escape he] at h ⊢
    exact map_eq_some_none h fun _ => rfl
  · rw [unescapeAfter_plain hslash hcontrol] at h ⊢
    exact map_eq_some_none h fun _ => rfl

theorem StringSays.unescape_eq {cs : List Char} {s : Option (List Char)} (h : StringSays cs s) :
    unescape cs = some s := by
  unfold unescape
  induction h with
  | nil => rfl
  | plain _ hslash hcontrol _ ih => rw [unescapeAfter_plain hslash hcontrol, ih]; rfl
  | escape he _ ih => rw [unescapeAfter_escape he, ih]; rfl
  | unit hn hhigh hlow _ ih => rw [unescapeAfter_unit hn hhigh hlow, ih]; rfl
  | pair hn hhigh hn' hlow _ ih =>
    rw [unescapeAfter_high hn hhigh, unescapeAfter_low hn' hlow, ih]
    rfl
  | high hn hhigh hcs _ ih =>
    rw [unescapeAfter_high hn hhigh, unescapeAfter_some_of_not_low hcs (by rw [ih]; rfl)]
    rfl
  | low hn hlow _ ih => rw [unescapeAfter_low hn hlow, ih]; rfl

/-! ## Where a string ends -/

/-- No quote stands without a backslash before it, and no backslash is last. -/
inductive Closed : List Char → Prop
  | nil : Closed []
  | plain {c : Char} {cs : List Char} (hquote : c ≠ '"') (hslash : c ≠ '\\') (h : Closed cs) :
      Closed (c :: cs)
  | escaped {c : Char} {cs : List Char} (h : Closed cs) : Closed ('\\' :: c :: cs)

theorem Closed.tail {c : Char} {cs : List Char} (h : Closed (c :: cs)) (hslash : c ≠ '\\') :
    c ≠ '"' ∧ Closed cs := by
  cases h with
  | plain hquote _ h => exact ⟨hquote, h⟩
  | escaped h => exact absurd rfl hslash

theorem Closed.behind_escape {c : Char} {cs : List Char} (h : Closed ('\\' :: c :: cs)) :
    Closed cs := by
  cases h with
  | plain _ hslash _ => exact absurd rfl hslash
  | escaped h => exact h

theorem hexValue?_ne {c : Char} {n : Nat} (h : hexValue? c = some n) : c ≠ '"' ∧ c ≠ '\\' := by
  constructor <;> rintro rfl <;> simp [hexValue?] at h

theorem hex4?_ne {a b c d : Char} {n : Nat} (h : hex4? a b c d = some n) :
    (a ≠ '"' ∧ a ≠ '\\') ∧ (b ≠ '"' ∧ b ≠ '\\') ∧ (c ≠ '"' ∧ c ≠ '\\') ∧
      (d ≠ '"' ∧ d ≠ '\\') := by
  rw [hex4?] at h
  split at h
  · next ha hb hc hd => exact ⟨hexValue?_ne ha, hexValue?_ne hb, hexValue?_ne hc, hexValue?_ne hd⟩
  · cases h

theorem closed_unit_iff {a b c d : Char} {n : Nat} {cs : List Char}
    (hn : hex4? a b c d = some n) :
    Closed ('\\' :: 'u' :: a :: b :: c :: d :: cs) ↔ Closed cs := by
  obtain ⟨ha, hb, hc, hd⟩ := hex4?_ne hn
  constructor
  · exact fun h => ((((h.behind_escape.tail ha.2).2.tail hb.2).2.tail hc.2).2.tail hd.2).2
  · exact fun h => .escaped (.plain ha.1 ha.2 (.plain hb.1 hb.2 (.plain hc.1 hc.2
      (.plain hd.1 hd.2 h))))

theorem StringSays.closed {cs : List Char} {s : Option (List Char)} (h : StringSays cs s) :
    Closed cs := by
  induction h with
  | nil => exact .nil
  | plain hquote hslash _ _ ih => exact .plain hquote hslash ih
  | escape _ _ ih => exact .escaped ih
  | unit hn _ _ _ ih | high hn _ _ _ ih | low hn _ _ ih => exact (closed_unit_iff hn).2 ih
  | pair hn _ hn' _ _ ih => exact (closed_unit_iff hn).2 ((closed_unit_iff hn').2 ih)

/-- By induction on the length, as a high surrogate may take the escape behind it along. -/
theorem says_of_unescape {cs : List Char} {s : Option (List Char)} (hclosed : Closed cs)
    (h : unescape cs = some s) : StringSays cs s := by
  have hsome : (unescapeAfter none cs).isSome = true := Option.isSome_iff_exists.2 ⟨s, h⟩
  unfold unescape at h
  obtain rfl | ⟨a, b, c, d, n, rest, rfl, hn⟩ | ⟨c, e, rest, rfl, he⟩ |
    ⟨c, rest, rfl, hslash, hcontrol⟩ := piece_of_isSome hsome
  · cases h
    exact .nil
  · have hrest := (closed_unit_iff hn).1 hclosed
    by_cases hhigh : isHighSurrogate n = true
    · rw [unescapeAfter_high hn hhigh] at h
      obtain ⟨r, hr, hs⟩ := Option.map_eq_some_iff.1 h
      by_cases hlow : BeginsLow rest
      · obtain ⟨a', b', c', d', low, rest, rfl, hn', hlow⟩ := hlow
        rw [unescapeAfter_low hn' hlow] at hr
        obtain ⟨r', hr', rfl⟩ := Option.map_eq_some_iff.1 hr
        cases hs
        exact .pair hn hhigh hn' hlow (says_of_unescape ((closed_unit_iff hn').1 hrest) hr')
      · obtain ⟨r', hr'⟩ := Option.isSome_iff_exists.1
          ((isSome_unescapeAfter (some n) rest).symm.trans (Option.isSome_iff_exists.2 ⟨r, hr⟩))
        rw [unescapeAfter_some_of_not_low hlow (Option.isSome_iff_exists.2 ⟨r', hr'⟩)] at hr
        cases hr
        cases hs
        exact .high hn hhigh hlow (says_of_unescape hrest hr')
    · by_cases hlow : isLowSurrogate n = true
      · rw [unescapeAfter_low hn hlow] at h
        obtain ⟨r, hr, rfl⟩ := Option.map_eq_some_iff.1 h
        exact .low hn hlow (says_of_unescape hrest hr)
      · have hhigh : isHighSurrogate n = false := by simpa using hhigh
        have hlow : isLowSurrogate n = false := by simpa using hlow
        rw [unescapeAfter_unit hn hhigh hlow] at h
        obtain ⟨r, hr, rfl⟩ := Option.map_eq_some_iff.1 h
        exact .unit hn hhigh hlow (says_of_unescape hrest hr)
  · rw [unescapeAfter_escape he] at h
    obtain ⟨r, hr, rfl⟩ := Option.map_eq_some_iff.1 h
    exact .escape he (says_of_unescape hclosed.behind_escape hr)
  · rw [unescapeAfter_plain hslash hcontrol] at h
    obtain ⟨r, hr, rfl⟩ := Option.map_eq_some_iff.1 h
    obtain ⟨hquote, hrest⟩ := hclosed.tail hslash
    exact .plain hquote hslash hcontrol (says_of_unescape hrest hr)
termination_by cs.length

theorem unescape_eq_some_iff {cs : List Char} {s : Option (List Char)} (h : Closed cs) :
    unescape cs = some s ↔ StringSays cs s := ⟨says_of_unescape h, StringSays.unescape_eq⟩

end Json
end MarketFeed
