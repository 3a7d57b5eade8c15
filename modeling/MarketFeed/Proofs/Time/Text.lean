import MarketFeed.Proofs.Text.Blank
import MarketFeed.Proofs.Text.Digits
import MarketFeed.Proofs.Time.Calendar
import MarketFeed.Time.Text
import Mathlib.Data.List.TakeWhile

/-!
# MarketFeed.Proofs.Time.Text

A moment is read back from its text.

* `readField?_padded`, `readYear?_yearChars`, `readFraction?_fractionChars` — its parts, each in
  front of the rest.
* `ofLocal?_ofDay` — the moment of its own date and clock, leap seconds included.
* `ofText?_text` — the whole.
-/

namespace MarketFeed
namespace Instant

open Text (isDigit isBlank paddedDigits trimStart)

/-! ## Digits -/

theorem trimStart_digits {ds : List Char} (hne : ds ≠ []) (hds : ds.all isDigit = true)
    (rest : List Char) : trimStart (ds ++ rest) = ds ++ rest := by
  obtain ⟨d, ds, rfl⟩ := List.exists_cons_of_ne_nil hne
  rw [List.all_cons, Bool.and_eq_true] at hds
  refine Text.dropWhile_of_head? _ fun c hc => ?_
  obtain rfl := Option.some.inj hc
  exact Text.isBlank_of_isDigit hds.1

/-- As many digits as may stand. -/
theorem readNumber?_of_length {ds : List Char} (hne : ds ≠ []) (hds : ds.all isDigit = true)
    (rest : List Char) : readNumber? ds.length (ds ++ rest) = some (Text.number ds, rest) := by
  have htake : ((ds ++ rest).take ds.length).takeWhile isDigit = ds := by
    rw [List.take_left, List.takeWhile_eq_self_iff]
    exact List.all_eq_true.1 hds
  rw [readNumber?, htake, if_neg hne, List.drop_left]

/-- Digits up to something else. -/
theorem readNumber?_of_head? {ds rest : List Char} (hne : ds ≠ []) (hds : ds.all isDigit = true)
    (hrest : ∀ c ∈ rest.head?, isDigit c = false) :
    readNumber? (ds ++ rest).length (ds ++ rest) = some (Text.number ds, rest) := by
  rw [readNumber?, List.take_length, Text.takeWhile_isDigit_append hds hrest, if_neg hne,
    List.drop_left]

/-! ## The parts of a text -/

theorem readField?_padded {n : Nat} (h : n < 100) (rest : List Char) :
    readField? (paddedDigits 2 n ++ rest) = some (n, rest) := by
  have hdigits := Text.all_isDigit_paddedDigits 2 n
  have hread := readNumber?_of_length (Text.paddedDigits_ne_nil 2 n) hdigits rest
  rw [Text.length_paddedDigits (by decide) h, Text.number_paddedDigits] at hread
  rw [readField?, trimStart_digits (Text.paddedDigits_ne_nil 2 n) hdigits, hread]

theorem readMark?_self {mark : Char} (h : isBlank mark = false) (rest : List Char) :
    readMark? mark (mark :: rest) = some rest := by
  have htrim : trimStart (mark :: rest) = mark :: rest :=
    Text.dropWhile_of_head? _ fun c hc => Option.some.inj hc ▸ h
  rw [readMark?, htrim]
  exact if_pos rfl

/-- A year without a sign has four digits at most. -/
theorem readYear?_digits {ds : List Char} (hlength : ds.length = 4) (hds : ds.all isDigit = true)
    (rest : List Char) : readYear? (ds ++ rest) = some ((Text.number ds : Int), rest) := by
  have hne : ds ≠ [] := by
    rintro rfl
    cases hlength
  have hread := readNumber?_of_length hne hds rest
  rw [hlength] at hread
  obtain ⟨d, more, rfl⟩ := List.exists_cons_of_ne_nil hne
  rw [readYear?, trimStart_digits hne hds]
  rw [List.all_cons, Bool.and_eq_true] at hds
  split
  · next heq =>
    cases heq
    exact absurd hds.1 (by decide)
  · next heq =>
    cases heq
    exact absurd hds.1 (by decide)
  · rw [hread]
    rfl

/-- A year with a sign has as many digits as there are. -/
theorem readYear?_signed (n : Nat) {rest : List Char}
    (hrest : ∀ c ∈ rest.head?, isDigit c = false) :
    readYear? ('-' :: (paddedDigits 4 n ++ rest)) = some (-(n : Int), rest) ∧
      readYear? ('+' :: (paddedDigits 4 n ++ rest)) = some ((n : Int), rest) := by
  have hread := readNumber?_of_head? (Text.paddedDigits_ne_nil 4 n)
    (Text.all_isDigit_paddedDigits 4 n) hrest
  rw [Text.number_paddedDigits] at hread
  have hminus : trimStart ('-' :: (paddedDigits 4 n ++ rest)) =
      '-' :: (paddedDigits 4 n ++ rest) := rfl
  have hplus : trimStart ('+' :: (paddedDigits 4 n ++ rest)) =
      '+' :: (paddedDigits 4 n ++ rest) := rfl
  rw [readYear?, readYear?, hminus, hplus]
  exact ⟨congrArg (Option.map _) hread, congrArg (Option.map _) hread⟩

theorem readYear?_yearChars (year : Int) {rest : List Char}
    (hrest : ∀ c ∈ rest.head?, isDigit c = false) :
    readYear? (yearChars year ++ rest) = some (year, rest) := by
  obtain ⟨hminus, hplus⟩ := readYear?_signed year.natAbs hrest
  rw [yearChars]
  by_cases hshort : 0 ≤ year ∧ year ≤ 9999
  · have hlength : (paddedDigits 4 year.natAbs).length = 4 :=
      Text.length_paddedDigits (by decide) (by omega)
    rw [if_pos hshort, readYear?_digits hlength (Text.all_isDigit_paddedDigits 4 _),
      Text.number_paddedDigits, Int.natAbs_of_nonneg hshort.1]
  · rw [if_neg hshort]
    by_cases hnegative : year < 0
    · have hyear : -(year.natAbs : Int) = year := by omega
      rw [if_pos hnegative, List.cons_append, hminus, hyear]
    · have hyear : (year.natAbs : Int) = year := by omega
      rw [if_neg hnegative, List.cons_append, hplus, hyear]

/-- A fraction of at most nine digits. -/
theorem readFraction?_padded {places n nanos : Nat} (hpos : 0 < places) (hplaces : places ≤ 9)
    (h : n < 10 ^ places) (hnanos : n * 10 ^ (9 - places) = nanos) {rest : List Char}
    (hrest : ∀ c ∈ rest.head?, isDigit c = false) :
    readFraction? ('.' :: (paddedDigits places n ++ rest)) = some (nanos, rest) := by
  have hlength := Text.length_paddedDigits hpos h
  rw [readFraction?, Text.takeWhile_isDigit_append (Text.all_isDigit_paddedDigits _ _) hrest]
  dsimp only
  rw [if_neg (Text.paddedDigits_ne_nil _ _), List.take_of_length_le (by omega),
    Text.number_paddedDigits, hlength, List.drop_left' hlength, ← hnanos]
  rfl

/-- Milliseconds, microseconds and nanoseconds are written with as many places as they need. -/
theorem readFraction?_fractionChars {nanos : Nat} (h : nanos < 1000000000) {rest : List Char}
    (hrest : ∀ c ∈ rest.head?, isDigit c = false ∧ c ≠ '.') :
    readFraction? (fractionChars nanos ++ rest) = some (nanos, rest) := by
  have hdigit : ∀ c ∈ rest.head?, isDigit c = false := fun c hc => (hrest c hc).1
  rw [fractionChars]
  split
  · next hzero =>
    subst hzero
    rw [List.nil_append, readFraction?]
    intro cs hcs
    exact (hrest '.' (by rw [hcs]; rfl)).2 rfl
  split
  · exact readFraction?_padded (by decide) (by decide) (by omega) (by omega) hdigit
  split
  · exact readFraction?_padded (by decide) (by decide) (by omega) (by omega) hdigit
  · exact readFraction?_padded (by decide) (by decide) (by omega) (by omega) hdigit

/-! ## Dates and clocks -/

/-- The clock of a moment; a leap second is second 60. -/
def clock (t : Instant) : Clock :=
  ⟨t.second / 3600, t.second / 60 % 60,
    if 1000000000 ≤ t.nanos then t.second % 60 + 1 else t.second % 60, t.nanos % 1000000000⟩

theorem clock_valid (t : Instant) : t.clock.Valid := by
  have hsecond := t.second_lt
  refine ⟨?_, ?_, ?_⟩
  · change t.second / 3600 < 24
    omega
  · change t.second / 60 % 60 < 60
    omega
  · change (if 1000000000 ≤ t.nanos then t.second % 60 + 1 else t.second % 60) ≤ 60
    split <;> omega

/-- Second 60 is a leap second, and the second before it otherwise. -/
theorem clock_spec (t : Instant) :
    t.clock.hour * 3600 + t.clock.minute * 60 +
        (if t.clock.second = 60 then 59 else t.clock.second) = t.second ∧
      (if t.clock.second = 60 then t.clock.nanos + 1000000000 else t.clock.nanos) = t.nanos := by
  have hnanos := t.nanos_lt
  by_cases hleap : 1000000000 ≤ t.nanos
  · have hlast := t.leap hleap
    have hsixty : t.clock.second = 60 := by
      refine (if_pos hleap).trans ?_
      omega
    rw [if_pos hsixty, if_pos hsixty]
    change t.second / 3600 * 3600 + t.second / 60 % 60 * 60 + 59 = t.second ∧
      t.nanos % 1000000000 + 1000000000 = t.nanos
    omega
  · have hsecond : t.clock.second = t.second % 60 := if_neg hleap
    rw [if_neg (by omega), if_neg (by omega), hsecond]
    change t.second / 3600 * 3600 + t.second / 60 % 60 * 60 + t.second % 60 = t.second ∧
      t.nanos % 1000000000 = t.nanos
    omega

/-- A moment is the one of its own date and clock. -/
theorem ofLocal?_ofDay (t : Instant) : ofLocal? (Date.ofDay t.day) t.clock 0 = some t := by
  obtain ⟨hsecond, hnanos⟩ := t.clock_spec
  have htotal : (Date.ofDay t.day).toDay * 86400 + ((t.clock.hour : Int) * 3600 +
      t.clock.minute * 60 + (if t.clock.second = 60 then 59 else t.clock.second : Nat)) - 0 =
        t.day * 86400 + t.second := by
    rw [Date.toDay_ofDay, ← hsecond]
    generalize (if t.clock.second = 60 then 59 else t.clock.second) = second
    omega
  have hlt := t.second_lt
  have hday : (t.day * 86400 + (t.second : Int)) / 86400 = t.day := by omega
  have hofDay : ((t.day * 86400 + (t.second : Int)) % 86400).toNat = t.second := by omega
  have hrange : firstDay ≤ (Date.ofDay t.day).toDay ∧ (Date.ofDay t.day).toDay ≤ lastDay := by
    rw [Date.toDay_ofDay]
    exact ⟨t.firstDay_le, t.day_le⟩
  rw [ofLocal?, if_pos ⟨Date.valid_ofDay _, t.clock_valid, by decide, hrange.1, hrange.2⟩]
  dsimp only
  rw [htotal, hday, hofDay, hnanos, ofParts?,
    dif_pos ⟨t.firstDay_le, t.day_le, t.second_lt, t.nanos_lt, t.leap⟩]

/-! ## Texts -/

theorem chars_eq (t : Instant) : t.chars =
    yearChars (Date.ofDay t.day).year ++ '-' :: (paddedDigits 2 (Date.ofDay t.day).month ++
      '-' :: (paddedDigits 2 (Date.ofDay t.day).day ++ 'T' :: (paddedDigits 2 t.clock.hour ++
        ':' :: (paddedDigits 2 t.clock.minute ++ ':' :: (paddedDigits 2 t.clock.second ++
          (fractionChars t.clock.nanos ++ ['Z'])))))) := by
  simp [chars, clock]

theorem readDate?_chars {d : Date} (h : d.Valid) (rest : List Char) :
    readDate? (yearChars d.year ++ '-' :: (paddedDigits 2 d.month ++
      '-' :: (paddedDigits 2 d.day ++ rest))) = some (d, rest) := by
  obtain ⟨-, hmonth, -, hday⟩ := h
  have hlength : Date.daysInMonth d.year d.month ≤ 31 := by
    unfold Date.daysInMonth
    split
    · split <;> decide
    all_goals decide
  rw [readDate?, readYear?_yearChars _ (by simp [isDigit])]
  simp only [Option.bind_eq_bind, Option.bind_some]
  rw [readMark?_self (by decide), Option.bind_some, readField?_padded (by omega), Option.bind_some,
    readMark?_self (by decide), Option.bind_some, readField?_padded (by omega), Option.bind_some]

theorem readClock?_chars {c : Clock} (h : c.Valid) (hnanos : c.nanos < 1000000000)
    {rest : List Char} (hrest : ∀ c ∈ rest.head?, isDigit c = false ∧ c ≠ '.') :
    readClock? (paddedDigits 2 c.hour ++ ':' :: (paddedDigits 2 c.minute ++
      ':' :: (paddedDigits 2 c.second ++ (fractionChars c.nanos ++ rest)))) = some (c, rest) := by
  obtain ⟨hhour, hminute, hsecond⟩ := h
  rw [readClock?, readField?_padded (by omega)]
  simp only [Option.bind_eq_bind, Option.bind_some]
  rw [readMark?_self (by decide), Option.bind_some, readField?_padded (by omega), Option.bind_some,
    readMark?_self (by decide), Option.bind_some, readField?_padded (by omega), Option.bind_some,
    readFraction?_fractionChars hnanos hrest, Option.bind_some]

/-- A moment is read back from its text. -/
theorem ofText?_text (t : Instant) : ofText? t.text = some t := by
  have hnanos : t.clock.nanos < 1000000000 := Nat.mod_lt _ (by decide)
  rw [ofText?, text, String.toList_ofList, chars_eq, read?,
    readDate?_chars (Date.valid_ofDay t.day), Option.bind_some]
  dsimp only
  rw [if_pos (by decide), readClock?_chars t.clock_valid hnanos (by simp [isDigit]),
    Option.bind_some]
  exact ofLocal?_ofDay t

end Instant
end MarketFeed
