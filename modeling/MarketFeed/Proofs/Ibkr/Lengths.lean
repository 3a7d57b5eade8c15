import MarketFeed.Ibkr.Duration
import MarketFeed.Proofs.Text.Digits
import Mathlib.Algebra.Order.Floor.Div
import Mathlib.Order.Bounds.Defs

/-!
# MarketFeed.Proofs.Ibkr.Lengths

How long the durations are that are asked for.

* `namedLength?` — the seconds that the text of a duration names.
* `length_covering` — the length asked for, by the seconds to cover: themselves up to a day, then
  the least whole days, then the least whole years.
* `covering64?` — the same computed in words of 64 bits, none where one overflows.
* `covering_bounded` — the bounds on the length, and its growth with the span.
-/

namespace MarketFeed
namespace Ibkr
namespace Duration

/-! ## Texts -/

/-- The seconds that a text names: a count, a blank and the unit. -/
def namedLength? (text : String) : Option Nat :=
  (Text.number? (text.toList.takeWhile Text.isDigit)).bind fun n =>
    match text.toList.dropWhile Text.isDigit with
    | [' ', 'S'] => some n
    | [' ', 'D'] => some (n * 86400)
    | [' ', 'Y'] => some (n * (365 * 86400))
    | _ => none

def count : Duration → Nat
  | .seconds n => n
  | .days n => n
  | .years n => n

def unitText : Duration → String
  | .seconds _ => " S"
  | .days _ => " D"
  | .years _ => " Y"

theorem text_eq (d : Duration) : d.text = toString d.count ++ d.unitText := by
  cases d <;> rfl

theorem namedLength?_text (d : Duration) : namedLength? d.text = some d.length := by
  have hlist : d.text.toList = Text.digits d.count ++ d.unitText.toList := by
    rw [text_eq, String.toList_append, Text.toList_toString]
  have hunit : ∀ c ∈ d.unitText.toList.head?, Text.isDigit c = false := by
    cases d <;> simp [unitText, Text.isDigit]
  rw [namedLength?, hlist, Text.takeWhile_isDigit_append (Text.all_isDigit_digits _) hunit,
    Text.dropWhile_isDigit_append (Text.all_isDigit_digits _) hunit, Text.digits_number?]
  cases d <;> simp [unitText, count, length, secondsInDay, daysInYear]

/-! ## Quotients rounded up -/

theorem ceilDiv_eq (n d : Nat) : ceilDiv n d = n ⌈/⌉ d := (Nat.ceilDiv_eq_add_pred_div n d).symm

section

variable {n m d k : Nat} (hd : 0 < d)
include hd

theorem ceilDiv_le_iff : ceilDiv n d ≤ k ↔ n ≤ d * k := by
  rw [ceilDiv_eq, ceilDiv_le_iff_le_mul hd]

theorem le_mul_ceilDiv : n ≤ d * ceilDiv n d := (ceilDiv_le_iff hd).1 (Nat.le_refl _)

theorem mul_ceilDiv_lt : d * ceilDiv n d < n + d := by
  have h := Nat.mul_div_le (n + d - 1) d
  rw [ceilDiv]
  omega

theorem ceilDiv_mono (h : n ≤ m) : ceilDiv n d ≤ ceilDiv m d :=
  (ceilDiv_le_iff hd).2 (Nat.le_trans h (le_mul_ceilDiv hd))

theorem isLeast_mul_ceilDiv : IsLeast {m | d ∣ m ∧ n ≤ m} (d * ceilDiv n d) := by
  refine ⟨⟨Nat.dvd_mul_right _ _, le_mul_ceilDiv hd⟩, ?_⟩
  rintro _ ⟨⟨k, rfl⟩, hk⟩
  exact Nat.mul_le_mul_left d ((ceilDiv_le_iff hd).2 hk)

/-- Rounding up twice is rounding up once. -/
theorem ceilDiv_ceilDiv {e : Nat} (he : 0 < e) :
    ceilDiv (ceilDiv n d) e = ceilDiv n (d * e) := by
  refine eq_of_forall_ge_iff fun k => ?_
  rw [ceilDiv_le_iff he, ceilDiv_le_iff hd, ceilDiv_le_iff (Nat.mul_pos hd he), Nat.mul_assoc]

/-- The quotient, and one more if something is left over. -/
theorem ceilDiv_eq_ite : ceilDiv n d = if n % d = 0 then n / d else n / d + 1 := by
  have hn := Nat.div_add_mod n d
  have hlt := Nat.mod_lt n hd
  refine eq_of_forall_ge_iff fun k => ?_
  rw [ceilDiv_le_iff hd]
  split
  · next h => rw [Nat.div_le_iff_le_mul_of_dvd (by omega) (Nat.dvd_of_mod_eq_zero h), Nat.mul_comm]
  · next h =>
    rw [Nat.succ_le_iff, Nat.div_lt_iff_lt_mul hd, Nat.mul_comm]
    refine ⟨fun hle => Nat.lt_of_le_of_ne hle ?_, Nat.le_of_lt⟩
    rintro rfl
    exact h (Nat.mul_mod_left _ _)

end

/-! ## The length asked for -/

/-- What is asked for to cover some seconds, at least one. -/
def roundedLength (secs : Nat) : Nat :=
  if secs ≤ 86400 then secs
  else if secs ≤ 365 * 86400 then 86400 * ceilDiv secs 86400
  else 365 * 86400 * ceilDiv secs (365 * 86400)

theorem length_covering (s : Span) : (covering s).length = roundedLength (max s.seconds 1) := by
  have hdays : ceilDiv (max s.seconds 1) 86400 ≤ 365 ↔ max s.seconds 1 ≤ 365 * 86400 :=
    ceilDiv_le_iff (by decide)
  simp only [covering, roundedLength, secondsInDay, daysInYear, hdays]
  split
  · rfl
  · split
    · exact Nat.mul_comm _ _
    · rw [ceilDiv_ceilDiv (by decide) (by decide)]
      exact Nat.mul_comm _ _

section

variable {t u : Nat}

theorem le_roundedLength : t ≤ roundedLength t := by
  rw [roundedLength]
  split
  · exact Nat.le_refl _
  · split <;> exact le_mul_ceilDiv (by decide)

theorem roundedLength_lt (ht : 0 < t) : roundedLength t < 2 * t := by
  rw [roundedLength]
  split
  · omega
  · split
    · have := @mul_ceilDiv_lt t 86400 (by decide)
      omega
    · have := @mul_ceilDiv_lt t (365 * 86400) (by decide)
      omega

/-- Each unit is left only for lengths that are beyond all of it. -/
theorem roundedLength_le {whole : Nat} (hwhole : whole = 86400 ∨ whole = 365 * 86400)
    (h : t ≤ whole) : roundedLength t ≤ whole := by
  rw [roundedLength]
  split
  · exact h
  · have hdays : t ≤ 365 * 86400 := by omega
    have hceil : ceilDiv t 86400 ≤ 365 := (ceilDiv_le_iff (by decide)).2 hdays
    rw [if_pos hdays]
    omega

theorem roundedLength_mono (h : t ≤ u) : roundedLength t ≤ roundedLength u := by
  have hu : u ≤ roundedLength u := le_roundedLength
  by_cases hday : t ≤ 86400 ∧ 86400 < u
  · have := roundedLength_le (.inl rfl) hday.1
    omega
  · by_cases hyear : t ≤ 365 * 86400 ∧ 365 * 86400 < u
    · have := roundedLength_le (.inr rfl) hyear.1
      omega
    · have hday' : t ≤ 86400 ↔ u ≤ 86400 := by omega
      have hyear' : t ≤ 365 * 86400 ↔ u ≤ 365 * 86400 := by omega
      simp only [roundedLength, hday', hyear']
      split
      · exact h
      · split <;> exact Nat.mul_le_mul_left _ (ceilDiv_mono (by decide) h)

end

theorem count_covering_pos (s : Span) : 0 < (covering s).count := by
  have hlength : 0 < (covering s).length := by
    rw [length_covering]
    exact Nat.lt_of_lt_of_le (by omega) (@le_roundedLength (max s.seconds 1))
  cases hd : covering s <;> rw [hd] at hlength
  · exact hlength
  · exact Nat.pos_of_mul_pos_right hlength
  · exact Nat.pos_of_mul_pos_right hlength

/-! ## In words of 64 bits -/

/-- One more, unless it takes more than 64 bits. -/
def succ64? (n : UInt64) : Option UInt64 :=
  if n.toNat + 1 < UInt64.size then some (n + 1) else none

/-- The quotient rounded up: the quotient, and one more if something is left over. -/
def ceilDiv64? (n d : UInt64) : Option UInt64 :=
  if d = 0 then none else if n % d = 0 then some (n / d) else succ64? (n / d)

/-- What is asked for to cover some seconds. -/
def covering64? (seconds : UInt64) : Option Duration :=
  let secs := max seconds 1
  if secs ≤ 86400 then some (.seconds secs.toNat)
  else
    (ceilDiv64? secs 86400).bind fun days =>
      if days ≤ 365 then some (.days days.toNat)
      else (ceilDiv64? days 365).map fun years => .years years.toNat

theorem ceilDiv64?_eq {n d : UInt64} (hd : 1 < d.toNat) :
    ∃ q, ceilDiv64? n d = some q ∧ q.toNat = ceilDiv n.toNat d.toNat := by
  have hhalf : n.toNat / d.toNat ≤ n.toNat / 2 := Nat.div_le_div_left hd (by decide)
  have hlt := n.toNat_lt
  have hzero : d ≠ 0 := by
    rintro rfl
    exact absurd hd (by decide)
  have hmod : n % d = 0 ↔ n.toNat % d.toNat = 0 := by
    rw [← UInt64.toNat_inj, UInt64.toNat_mod]
    rfl
  have hfits : (n / d).toNat + 1 < UInt64.size := by
    rw [UInt64.toNat_div]
    simp only [UInt64.size]
    omega
  rw [ceilDiv64?, if_neg hzero, ceilDiv_eq_ite (by omega)]
  simp only [hmod]
  split
  · exact ⟨_, rfl, UInt64.toNat_div _ _⟩
  · refine ⟨_, by rw [succ64?, if_pos hfits], ?_⟩
    rw [UInt64.toNat_div] at hfits
    rw [UInt64.toNat_add, UInt64.toNat_div]
    exact Nat.mod_eq_of_lt hfits

theorem covering64?_eq (s : Span) : covering64? (.ofNat s.seconds) = some (covering s) := by
  have hsecs : (max (UInt64.ofNat s.seconds) 1).toNat = max s.seconds 1 := by
    rw [UInt64.toNat_max, UInt64.toNat_ofNat_of_lt' s.seconds_lt]
    rfl
  have hday : (86400 : UInt64).toNat = secondsInDay := rfl
  have hyear : (365 : UInt64).toNat = daysInYear := rfl
  obtain ⟨days, hdays, hdaysNat⟩ :=
    @ceilDiv64?_eq (max (UInt64.ofNat s.seconds) 1) 86400 (by decide)
  obtain ⟨years, hyears, hyearsNat⟩ := @ceilDiv64?_eq days 365 (by decide)
  rw [hsecs, hday] at hdaysNat
  rw [hdaysNat, hyear] at hyearsNat
  simp only [covering64?, covering, UInt64.le_iff_toNat_le, hsecs, hday, hyear, hdays,
    Option.bind_some, hdaysNat, hyears, Option.map_some, hyearsNat]
  split
  · rfl
  · split <;> rfl

theorem unitText_mem (d : Duration) : d.unitText ∈ [" S", " D", " Y"] := by
  cases d <;> simp [unitText]

theorem seconds_le {s s' : Span} (h : s.toNanos ≤ s'.toNanos) : s.seconds ≤ s'.seconds := by
  have hs := s.nanos_lt
  have hs' := s'.nanos_lt
  simp only [Span.toNanos] at h
  omega

/-- What is asked for is a positive count of a unit. In seconds it is at least the whole seconds of
the span, or one, and less than twice as much: just as much up to a day, the least whole days up to
a year, and the least whole years beyond. No step of the computation needs more than 64 bits. For a
longer span no less is asked for. -/
theorem covering_bounded :
    (∀ s : Span, ∃ n unit L, unit ∈ [" S", " D", " Y"] ∧ 0 < n ∧
      (covering s).text = toString n ++ unit ∧
      namedLength? (covering s).text = some L ∧
      max s.seconds 1 ≤ L ∧ L < 2 * max s.seconds 1 ∧
      (max s.seconds 1 ≤ 86400 → L = max s.seconds 1) ∧
      (86400 < max s.seconds 1 → max s.seconds 1 ≤ 365 * 86400 →
        IsLeast {m | 86400 ∣ m ∧ max s.seconds 1 ≤ m} L) ∧
      (365 * 86400 < max s.seconds 1 →
        IsLeast {m | 365 * 86400 ∣ m ∧ max s.seconds 1 ≤ m} L) ∧
      covering64? (.ofNat s.seconds) = some (covering s)) ∧
    ∀ s s' : Span, s.toNanos ≤ s'.toNanos →
      ∃ L L', namedLength? (covering s).text = some L ∧
        namedLength? (covering s').text = some L' ∧ L ≤ L' := by
  constructor
  · intro s
    refine ⟨_, _, _, unitText_mem (covering s), count_covering_pos s, text_eq _,
      namedLength?_text _, ?_⟩
    rw [length_covering]
    refine ⟨le_roundedLength, roundedLength_lt (by omega), ?_, ?_, ?_, covering64?_eq s⟩
    · exact fun hday => if_pos hday
    · intro hday hyear
      rw [roundedLength, if_neg (by omega), if_pos hyear]
      exact isLeast_mul_ceilDiv (by decide)
    · intro hyear
      rw [roundedLength, if_neg (by omega), if_neg (by omega)]
      exact isLeast_mul_ceilDiv (by decide)
  · intro s s' h
    refine ⟨_, _, namedLength?_text _, namedLength?_text _, ?_⟩
    rw [length_covering, length_covering]
    exact roundedLength_mono (max_le_max (seconds_le h) (Nat.le_refl 1))

/-- Two years are asked for to cover a second more than one: two seconds fewer than would be twice
as much. -/
theorem covering_bounded_past_year :
    let year : Span := ⟨31536000, 999999999, by decide, by decide⟩
    let more : Span := ⟨31536001, 0, by decide, by decide⟩
    year.toNanos ≤ more.toNanos ∧ (covering year).text = "365 D" ∧ (covering more).text = "2 Y" ∧
      ∃ L L', namedLength? (covering year).text = some L ∧
        namedLength? (covering more).text = some L' ∧ L ≤ L' ∧
        L = 31536000 ∧ L' + 2 = 2 * more.seconds ∧
        IsLeast {m | 365 * 86400 ∣ m ∧ more.seconds ≤ m} L' := by
  intro year more
  have hle : year.toNanos ≤ more.toNanos := by decide
  have hyear : covering year = .days 365 := by decide
  have hmore : covering more = .years 2 := by decide
  obtain ⟨L, L', hL, hL', hmono⟩ := covering_bounded.2 year more hle
  obtain ⟨-, -, M, -, -, -, hM, -, -, -, -, hyears, -⟩ := covering_bounded.1 more
  obtain rfl : L' = M := Option.some.inj (hL'.symm.trans hM)
  refine ⟨hle, by rw [hyear]; decide, by rw [hmore]; decide, L, L', hL, hL', hmono, ?_, ?_,
    hyears (by decide)⟩
  · rw [namedLength?_text, hyear] at hL
    simpa [length, secondsInDay] using hL.symm
  · rw [namedLength?_text, hmore] at hL'
    rw [← Option.some.inj hL']
    decide

end Duration
end Ibkr
end MarketFeed
