import MarketFeed.Proofs.Ibkr.Lengths
import MarketFeed.Proofs.Time.Span

/-!
# MarketFeed.Proofs.Ibkr.Coverage

Whether the duration asked for covers the range of a history request.

* `Nameable`, `roundedLength_eq_self_iff` — the seconds that are asked for without rounding.
* `request_covered` — a range is covered but for the part of a second at its start, and that only if
  its whole seconds are asked for without rounding. As many intervals as the limit says are covered.
* `second_cut_off` — a range that is not covered.
-/

namespace MarketFeed
namespace Ibkr
namespace Duration

/-- As many seconds as some duration has that is asked for: up to a day of seconds, up to a year of
days, or years. -/
def Nameable (w : Nat) : Prop :=
  0 < w ∧ (w ≤ 86400 ∨ (86400 ∣ w ∧ w ≤ 365 * 86400) ∨ 365 * 86400 ∣ w)

theorem mul_ceilDiv_eq_iff {n d : Nat} (hd : 0 < d) : d * ceilDiv n d = n ↔ d ∣ n := by
  have hleast := @isLeast_mul_ceilDiv n d hd
  constructor
  · intro h
    rw [← h]
    exact hleast.1.1
  · exact fun h => Nat.le_antisymm (hleast.2 ⟨h, Nat.le_refl n⟩) hleast.1.2

theorem roundedLength_eq_self_iff {w : Nat} (hw : 0 < w) : roundedLength w = w ↔ Nameable w := by
  have hyear : 365 * 86400 ∣ w → 86400 ∣ w := Nat.dvd_trans ⟨365, rfl⟩
  rw [roundedLength, Nameable]
  split
  · next h => exact ⟨fun _ => ⟨hw, .inl h⟩, fun _ => rfl⟩
  · next h =>
    split
    · next h' =>
      rw [mul_ceilDiv_eq_iff (by decide)]
      refine ⟨fun hdvd => ⟨hw, .inr (.inl ⟨hdvd, h'⟩)⟩, ?_⟩
      rintro ⟨-, hday | ⟨hdvd, -⟩ | hdvd⟩
      · exact absurd hday h
      · exact hdvd
      · exact hyear hdvd
    · next h' =>
      rw [mul_ceilDiv_eq_iff (by decide)]
      refine ⟨fun hdvd => ⟨hw, .inr (.inr hdvd)⟩, ?_⟩
      rintro ⟨-, hday | ⟨-, hle⟩ | hdvd⟩
      · exact absurd hday h
      · exact absurd hle h'
      · exact hdvd

/-- What is asked for is the whole seconds of a span, or longer than the span. -/
theorem length_lt_iff (s : Span) :
    (covering s).length * 1000000000 < s.toNanos ↔ s.nanos ≠ 0 ∧ Nameable s.seconds := by
  have hnanos := s.nanos_lt
  have hle : max s.seconds 1 ≤ roundedLength (max s.seconds 1) := le_roundedLength
  rw [length_covering, Span.toNanos]
  constructor
  · intro hlt
    have hpos : 0 < s.seconds := by omega
    have hmax : max s.seconds 1 = s.seconds := by omega
    rw [hmax] at hlt hle
    exact ⟨by omega, (roundedLength_eq_self_iff hpos).1 (by omega)⟩
  · rintro ⟨hne, hnameable⟩
    have hpos : 0 < s.seconds := hnameable.1
    have hmax : max s.seconds 1 = s.seconds := by omega
    rw [hmax, (roundedLength_eq_self_iff hpos).2 hnameable]
    omega

theorem seconds_le_length (s : Span) : s.seconds ≤ (covering s).length := by
  rw [length_covering]
  exact Nat.le_trans (Nat.le_max_left _ _) le_roundedLength

end Duration

/-! ## Requests -/

theorem seconds_of_interval_lt (i : Interval) : i.seconds < 18446744073709551616 := by
  cases i with
  | second n | minute n | hour n =>
    have hn := n.toNat_lt
    simp only [Interval.seconds]
    omega
  | daily | weekly | monthly => decide

/-- For every request and every moment, the text of what is asked for names a length. It covers a
range from `start` on but for less than a second: just the part of a second that the range has over
is left out if the whole seconds are nameable, and otherwise nothing. Without a start, as many
intervals as the limit says are covered, one if there is no limit, if their length is a number of
64 bits. -/
theorem request_covered (r : HistoryRequest) (now : Instant) :
    ∃ D, Duration.namedLength? (Duration.covering (r.span now)).text = some D ∧
      (∀ start, r.start = some start →
        let range := (r.end.getD now).nanosSince start
        range / 1000000000 ≤ D ∧
        (D * 1000000000 < range ↔
          range % 1000000000 ≠ 0 ∧ Duration.Nameable (range / 1000000000).toNat)) ∧
      (r.start = none →
        r.limit.elim 1 UInt32.toNat * r.interval.seconds < 18446744073709551616 →
        r.limit.elim 1 UInt32.toNat * r.interval.seconds ≤ D) := by
  refine ⟨_, Duration.namedLength?_text _, ?_, ?_⟩
  · intro start hstart range
    have hspan : (r.span now).toNanos = range.toNat := by
      rw [HistoryRequest.span, hstart]
      exact Instant.toNanos_since _ _
    have hle := Duration.seconds_le_length (r.span now)
    have hlt := Duration.length_lt_iff (r.span now)
    have hnanos := (r.span now).nanos_lt
    rw [Span.toNanos] at hspan
    rcases lt_or_ge (0 : Int) range with hpos | hneg
    · have hseconds : (r.span now).seconds = (range / 1000000000).toNat := by omega
      have hpart : (r.span now).nanos ≠ 0 ↔ range % 1000000000 ≠ 0 := by omega
      rw [hseconds, hpart, Span.toNanos] at hlt
      refine ⟨by omega, ?_⟩
      rw [← hlt]
      omega
    · have hzero : (range / 1000000000).toNat = 0 := by omega
      refine ⟨by omega, ?_⟩
      rw [hzero]
      refine ⟨fun h => by omega, fun h => absurd h.2.1 (Nat.lt_irrefl 0)⟩
  · intro hstart hfits
    have hseconds : (r.span now).seconds = r.limit.elim 1 UInt32.toNat * r.interval.seconds := by
      rw [HistoryRequest.span, hstart]
      exact Span.seconds_times hfits (seconds_of_interval_lt _)
    rw [← hseconds]
    exact Duration.seconds_le_length _

/-- From midnight on, a day and half a second: the day is asked for, and covers all but the half
second. Half a second less than two days is covered, and so are four bars of an hour. -/
theorem request_covered_but_half :
    let midnight : Instant := ⟨19723, 0, 0, by decide, by decide, by decide, by decide, by decide⟩
    let next : Instant :=
      ⟨19724, 0, 500000000, by decide, by decide, by decide, by decide, by decide⟩
    let late : Instant :=
      ⟨19724, 86399, 500000000, by decide, by decide, by decide, by decide, by decide⟩
    let r : HistoryRequest := ⟨.minute 1, some midnight, some next, none⟩
    let longer : HistoryRequest := ⟨.minute 1, some midnight, none, some 3⟩
    let four : HistoryRequest := .latest (.hour 1) 4
    (∃ D, Duration.namedLength? (Duration.covering (r.span late)).text = some D ∧
      next.nanosSince midnight = 86400500000000 ∧ D * 1000000000 < next.nanosSince midnight) ∧
    (∃ D, Duration.namedLength? (Duration.covering (longer.span late)).text = some D ∧
      late.nanosSince midnight = 172799500000000 ∧ ¬ D * 1000000000 < late.nanosSince midnight) ∧
    ∃ D, Duration.namedLength? (Duration.covering (four.span late)).text = some D ∧
      14400 ≤ D := by
  intro midnight next late r longer four
  have hnext : next.nanosSince midnight = 86400500000000 := by decide
  have hlate : late.nanosSince midnight = 172799500000000 := by decide
  obtain ⟨D, hD, hrange, -⟩ := request_covered r late
  obtain ⟨E, hE, hlonger, -⟩ := request_covered longer late
  obtain ⟨F, hF, -, hfour⟩ := request_covered four late
  have hpart := (hrange midnight rfl).2
  have hwhole := (hlonger midnight rfl).2
  have hbars : four.limit.elim 1 UInt32.toNat * four.interval.seconds = 14400 := by decide
  rw [show r.end.getD late = next from rfl, hnext] at hpart
  rw [show longer.end.getD late = late from rfl, hlate] at hwhole
  refine ⟨⟨D, hD, hnext, ?_⟩, ⟨E, hE, hlate, ?_⟩, F, hF, ?_⟩
  · rw [hnext, hpart]
    exact ⟨by omega, by omega, .inl (by omega)⟩
  · rw [hlate, hwhole]
    rintro ⟨-, -, hday | ⟨hdvd, -⟩ | hdvd⟩ <;> omega
  · rw [hbars] at hfour
    exact hfour rfl (by decide)

/-- A second and a half is not covered by what is asked for. -/
theorem second_cut_off :
    let start : Instant := ⟨19723, 0, 0, by decide, by decide, by decide, by decide, by decide⟩
    let finish : Instant :=
      ⟨19723, 1, 500000000, by decide, by decide, by decide, by decide, by decide⟩
    let r : HistoryRequest := ⟨.minute 1, some start, some finish, none⟩
    (Duration.covering (r.span finish)).text = "1 S" ∧
      Duration.namedLength? "1 S" = some 1 ∧ 1 * 1000000000 < finish.nanosSince start := by
  intro start finish r
  have htext : (Duration.covering (r.span finish)).text = Duration.text (.seconds 1) := by
    have hcovering : Duration.covering (r.span finish) = .seconds 1 := by decide
    rw [hcovering]
  exact ⟨by rw [htext]; decide, Duration.namedLength?_text (.seconds 1), by decide⟩

end Ibkr
end MarketFeed
