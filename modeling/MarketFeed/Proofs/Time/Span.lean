import MarketFeed.Proofs.Time.Instant

/-!
# MarketFeed.Proofs.Time.Span

Lengths of time by their nanoseconds.

* `Span.ofNanos?_eq_some_iff` — the span of a number of nanoseconds.
* `Span.seconds_times` — the whole seconds of a multiple.
* `Instant.toNanos_since` — from one moment to another.
-/

namespace MarketFeed

namespace Span

theorem toNanos_inj {s s' : Span} (h : s.toNanos = s'.toNanos) : s = s' := by
  obtain ⟨seconds, nanos, _, hnanos⟩ := s
  obtain ⟨seconds', nanos', _, hnanos'⟩ := s'
  simp only [toNanos] at h
  obtain rfl : seconds = seconds' := by omega
  obtain rfl : nanos = nanos' := by omega
  rfl

theorem ofNanos?_eq_some_iff {n : Nat} {s : Span} : ofNanos? n = some s ↔ s.toNanos = n := by
  have hs := s.seconds_lt
  have hn := s.nanos_lt
  rw [ofNanos?]
  constructor
  · intro h
    split at h
    · cases h
      simp only [toNanos]
      omega
    · cases h
  · intro h
    have hsmall : n / 1000000000 < 18446744073709551616 := by
      simp only [toNanos] at h
      omega
    rw [dif_pos hsmall]
    exact congrArg some (toNanos_inj ((Nat.div_add_mod' n 1000000000).trans h.symm))

theorem exists_of_toNanos_lt {n : Nat} (h : n < 18446744073709551616000000000) :
    ∃ s, ofNanos? n = some s ∧ s.toNanos = n := by
  have hsmall : n / 1000000000 < 18446744073709551616 := by omega
  have hsome : ofNanos? n = some ⟨n / 1000000000, n % 1000000000, hsmall, by omega⟩ :=
    dif_pos hsmall
  exact ⟨_, hsome, ofNanos?_eq_some_iff.1 hsome⟩

theorem toNanos_ofSeconds {n : Nat} (h : n < 18446744073709551616) :
    (ofSeconds n).toNanos = n * 1000000000 := by
  obtain ⟨s, hs, hnanos⟩ :=
    exists_of_toNanos_lt (show n * 1000000000 + 0 < 18446744073709551616000000000 by omega)
  rw [ofSeconds, ofParts?, hs, Option.getD_some, hnanos, Nat.add_zero]

theorem seconds_times {n k : Nat} (h : k * n < 18446744073709551616)
    (hn : n < 18446744073709551616) : (((ofSeconds n).times? k).getD max).seconds = k * n := by
  have hnanos : n * 1000000000 * k = k * n * 1000000000 := by
    rw [Nat.mul_right_comm, Nat.mul_comm n]
  obtain ⟨s, hs, hsnanos⟩ :=
    exists_of_toNanos_lt (show n * 1000000000 * k < 18446744073709551616000000000 by omega)
  have hlt := s.nanos_lt
  rw [times?, toNanos_ofSeconds hn, hs, Option.getD_some]
  simp only [toNanos] at hsnanos
  omega

end Span

namespace Instant

/-- No two moments are as far apart as the longest span. -/
theorem nanosSince_lt (t start : Instant) : t.nanosSince start < 18446744073709551616000000000 := by
  have hfirst := start.firstDay_le
  have hlast := t.day_le
  have hnanos := t.nanos_lt
  have hsecond := t.second_lt
  rw [firstDay_eq] at hfirst
  rw [lastDay_eq] at hlast
  simp only [nanosSince, unixSeconds]
  split <;> split <;> omega

theorem toNanos_since (t start : Instant) :
    (t.since start).toNanos = (t.nanosSince start).toNat := by
  have hlt := t.nanosSince_lt start
  obtain ⟨s, hs, hnanos⟩ := Span.exists_of_toNanos_lt
    (show (t.nanosSince start).toNat < 18446744073709551616000000000 by omega)
  rw [since, hs, Option.getD_some, hnanos]

end Instant
end MarketFeed
