import MarketFeed.Time.Instant
import Mathlib.Data.Nat.Init

/-!
# MarketFeed.Proofs.Time.Instant

Moments and their epoch milliseconds.

* `Instant.millis_of_ofMillis` — the milliseconds that a moment was made of are read back.
* `Instant.Representable`, `Instant.ofMillis_isSome` — the milliseconds that are moments.
-/

namespace MarketFeed
namespace Instant

theorem millis_of_ofMillis {ms : Int} {t : Instant} (h : ofMillis? ms = some t) :
    t.millis = ms := by
  unfold ofMillis? ofParts? at h
  split at h
  · cases h
    simp only [millis, unixSeconds]
    omega
  · cases h

/-- The milliseconds from the first to the last moment. -/
def Representable (ms : Int) : Prop := -8334601228800000 ≤ ms ∧ ms ≤ 8210266876799999

instance (ms : Int) : Decidable (Representable ms) := inferInstanceAs (Decidable (_ ∧ _))

theorem firstDay_eq : firstDay = -96465292 := by decide

theorem lastDay_eq : lastDay = 95026236 := by decide

theorem ofMillis_isSome {ms : Int} : (ofMillis? ms).isSome ↔ Representable ms := by
  have hwhole : -8334601228800000 = firstDay * 86400000 := by
    rw [firstDay_eq]
    rfl
  have hlast : 8210266876799999 = lastDay * 86400000 + 86399999 := by
    rw [lastDay_eq]
    rfl
  unfold ofMillis? ofParts? Representable
  split
  · rename_i h
    refine ⟨fun _ => ?_, fun _ => rfl⟩
    omega
  · rename_i h
    refine ⟨fun h => absurd h (by simp), fun hin => absurd ?_ h⟩
    refine ⟨?_, ?_, ?_, ?_, ?_⟩ <;> omega

end Instant
end MarketFeed
