import MarketFeed.Time.Calendar
import Mathlib.Tactic.IntervalCases

/-!
# MarketFeed.Proofs.Time.Calendar

Days and their dates.

* `yearStart`, `year_spec` — the years of a cycle, which begin on 1 March, and the year of a day.
* `month_spec` — the month and the day of the month, both from the day of such a year.
* `Date.valid_ofDay`, `Date.toDay_ofDay` — every day has a date that exists, and is its day.
-/

namespace MarketFeed
namespace Date

/-- The days of a cycle before a year, which begins on 1 March. -/
def yearStart (year : Int) : Int := 365 * year + year / 4 - year / 100

/-- The year of a day of a cycle. -/
def yearOf (ofCycle : Int) : Int :=
  (ofCycle - ofCycle / 1460 + ofCycle / 36524 - ofCycle / 146096) / 365

/-- A day lies in its year; the 366th day of one is the leap day of the year that has begun on
1 January. -/
theorem year_spec {r : Int} (h : 0 ≤ r) (h' : r < daysInCycle) :
    0 ≤ yearOf r ∧ yearOf r < 400 ∧ yearStart (yearOf r) ≤ r ∧ r ≤ yearStart (yearOf r) + 365 ∧
      (r = yearStart (yearOf r) + 365 → isLeap (yearOf r + 1) = true) := by
  unfold daysInCycle at h'
  have hcentury : r / 36524 = 0 ∨ r / 36524 = 1 ∨ r / 36524 = 2 ∨ r / 36524 = 3 ∨
      r / 36524 = 4 := by omega
  have hlast : r / 146096 = 0 ∨ r / 146096 = 1 := by omega
  -- the year by those of 1460 days
  obtain ⟨w, hw, hy⟩ : ∃ w, (w = -1 ∨ w = 0 ∨ w = 1 ∨ w = 2 ∨ w = 3) ∧
      yearOf r = 4 * (r / 1460) + w := by
    refine ⟨yearOf r - 4 * (r / 1460), ?_, by omega⟩
    unfold yearOf
    omega
  have hyear : 365 * yearOf r ≤ r - r / 1460 + r / 36524 - r / 146096 ∧
      r - r / 1460 + r / 36524 - r / 146096 < 365 * yearOf r + 365 := by
    unfold yearOf
    omega
  unfold yearStart isLeap
  generalize yearOf r = y at *
  simp only [Bool.and_eq_true, Bool.or_eq_true, decide_eq_true_eq]
  rcases hw with rfl | rfl | rfl | rfl | rfl <;> rcases hcentury with hc | hc | hc | hc | hc <;>
    rw [hc] at hyear <;> omega

/-! ## Months -/

/-- The month of a day of a year that begins on 1 March, with March as zero. -/
def monthOf (ofYear : Int) : Int := (5 * ofYear + 2) / 153

/-- The days of such a year before a month. -/
def monthStart (month : Int) : Int := (153 * month + 2) / 5

/-- The number that a month has from January on. -/
def fromJanuary (month : Int) : Int := if month < 10 then month + 3 else month - 9

theorem month_spec {d : Int} (h : 0 ≤ d) (h' : d ≤ 365) :
    0 ≤ monthOf d ∧ monthOf d < 12 ∧ monthStart (monthOf d) ≤ d := by
  unfold monthStart monthOf
  omega

theorem lt_monthStart (d : Int) : d < monthStart (monthOf d + 1) := by
  unfold monthStart monthOf
  omega

/-- February has 29 days in a year with a 366th day. -/
theorem day_le {d : Int} (h : 0 ≤ d) (h' : d ≤ 365) (year : Int)
    (hleap : d = 365 → isLeap year = true) :
    d - monthStart (monthOf d) + 1 ≤ daysInMonth year (fromJanuary (monthOf d)).toNat := by
  obtain ⟨hmonth, hmonth', -⟩ := month_spec h h'
  have hd := lt_monthStart d
  generalize monthOf d = m at *
  unfold monthStart at *
  by_cases hm : m = 11
  · subst hm
    change d - 337 + 1 ≤ (if isLeap year = true then 29 else 28 : Nat)
    by_cases hyear : isLeap year = true
    · rw [if_pos hyear]
      omega
    · have hlt : d ≠ 365 := fun hd => hyear (hleap hd)
      rw [if_neg hyear]
      omega
  · interval_cases m <;> simp [fromJanuary, daysInMonth] <;> omega

/-! ## Days and dates -/

/-- The day of its year, which begins on 1 March. -/
def dayOfYear (day : Int) : Int :=
  (day + epochShift) % daysInCycle - yearStart (yearOf ((day + epochShift) % daysInCycle))

theorem dayOfYear_spec (day : Int) : 0 ≤ dayOfYear day ∧ dayOfYear day ≤ 365 ∧
    (dayOfYear day = 365 → isLeap (yearOf ((day + epochShift) % daysInCycle) + 1) = true) := by
  obtain ⟨-, -, hstart, hend, hleap⟩ := year_spec (r := (day + epochShift) % daysInCycle)
    (Int.emod_nonneg _ (by decide)) (Int.emod_lt_of_pos _ (by decide))
  unfold dayOfYear
  exact ⟨by omega, by omega, fun h => hleap (by omega)⟩

theorem ofDay_eq (day : Int) : ofDay day =
    ⟨let y := yearOf ((day + epochShift) % daysInCycle) + (day + epochShift) / daysInCycle * 400
      if fromJanuary (monthOf (dayOfYear day)) ≤ 2 then y + 1 else y,
      (fromJanuary (monthOf (dayOfYear day))).toNat,
      (dayOfYear day - monthStart (monthOf (dayOfYear day)) + 1).toNat⟩ := rfl

/-- Leap years come again after a cycle. -/
theorem isLeap_add_cycles (year n : Int) : isLeap (year + n * 400) = isLeap year := by
  rw [Bool.eq_iff_iff]
  simp only [isLeap, Bool.and_eq_true, Bool.or_eq_true, decide_eq_true_eq]
  omega

theorem fromJanuary_spec {m : Int} (h : 0 ≤ m) (h' : m < 12) :
    1 ≤ fromJanuary m ∧ fromJanuary m ≤ 12 ∧ (fromJanuary m + 9) % 12 = m := by
  unfold fromJanuary
  split <;> omega

theorem month_ofDay (day : Int) :
    ((ofDay day).month : Int) = fromJanuary (monthOf (dayOfYear day)) := by
  obtain ⟨h, h', -⟩ := dayOfYear_spec day
  obtain ⟨hmonth, hmonth', -⟩ := month_spec h h'
  obtain ⟨hfirst, -, -⟩ := fromJanuary_spec hmonth hmonth'
  rw [ofDay_eq]
  dsimp only
  omega

theorem day_ofDay (day : Int) :
    ((ofDay day).day : Int) = dayOfYear day - monthStart (monthOf (dayOfYear day)) + 1 := by
  obtain ⟨h, h', -⟩ := dayOfYear_spec day
  obtain ⟨-, -, hstart⟩ := month_spec h h'
  rw [ofDay_eq]
  dsimp only
  omega

/-- The year of a date that has begun on 1 March. -/
theorem marchYear_ofDay (day : Int) :
    (if (ofDay day).month ≤ 2 then (ofDay day).year - 1 else (ofDay day).year) =
      yearOf ((day + epochShift) % daysInCycle) + (day + epochShift) / daysInCycle * 400 := by
  rw [ofDay_eq]
  dsimp only
  split <;> split <;> omega

/-- Every day has a date that exists. -/
theorem valid_ofDay (day : Int) : (ofDay day).Valid := by
  obtain ⟨h, h', hleap⟩ := dayOfYear_spec day
  obtain ⟨hmonth, hmonth', hstart⟩ := month_spec h h'
  obtain ⟨hfirst, hlast, -⟩ := fromJanuary_spec hmonth hmonth'
  have hmonthOf := month_ofDay day
  have hdayOf := day_ofDay day
  have hlength := day_le h h' (ofDay day).year fun hd => by
    -- the 366th day is the leap day of the year after the one that began in March
    have hyear : (ofDay day).year = yearOf ((day + epochShift) % daysInCycle) + 1 +
        (day + epochShift) / daysInCycle * 400 := by
      rw [ofDay_eq, hd]
      change yearOf _ + _ + 1 = _
      omega
    rw [hyear, isLeap_add_cycles]
    exact hleap hd
  rw [← hmonthOf, Int.toNat_natCast] at hlength
  exact ⟨by omega, by omega, by omega, by omega⟩

/-- Every day is the day of its date. -/
theorem toDay_ofDay (day : Int) : (ofDay day).toDay = day := by
  obtain ⟨h, h', -⟩ := dayOfYear_spec day
  obtain ⟨hmonth, hmonth', -⟩ := month_spec h h'
  obtain ⟨-, -, hback⟩ := fromJanuary_spec hmonth hmonth'
  obtain ⟨hyear, hyear', -⟩ := year_spec (r := (day + epochShift) % daysInCycle)
    (Int.emod_nonneg _ (by decide)) (Int.emod_lt_of_pos _ (by decide))
  have hcycle : (yearOf ((day + epochShift) % daysInCycle) +
      (day + epochShift) / daysInCycle * 400) / 400 = (day + epochShift) / daysInCycle := by omega
  have hofCycle : (yearOf ((day + epochShift) % daysInCycle) +
      (day + epochShift) / daysInCycle * 400) % 400 =
        yearOf ((day + epochShift) % daysInCycle) := by omega
  have hdays : (day + epochShift) / daysInCycle * daysInCycle +
      (day + epochShift) % daysInCycle = day + epochShift := Int.ediv_mul_add_emod _ _
  rw [toDay, marchYear_ofDay, month_ofDay, hback, day_ofDay, hcycle, hofCycle]
  unfold monthStart dayOfYear yearStart
  omega

end Date
end MarketFeed
