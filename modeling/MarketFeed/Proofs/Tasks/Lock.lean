import MarketFeed.Tasks.Lock

/-!
# MarketFeed.Proofs.Tasks.Lock

Who holds a lock.

* `heldBy_unique` — one caller at a time.
* `heldBy_join`, `heldBy_leave` — the others ask for it, or give up, without its being lost.
-/

namespace MarketFeed

section

variable {l : Lock} {i j : Nat}

theorem heldBy_iff : l.heldBy i = true ↔ ∃ rest, l.queue = i :: rest := by
  simp only [Lock.heldBy, decide_eq_true_eq]
  cases l.queue <;> simp

theorem heldBy_unique (hi : l.heldBy i = true) (hj : l.heldBy j = true) : i = j := by
  obtain ⟨_, hi⟩ := heldBy_iff.1 hi
  obtain ⟨_, hj⟩ := heldBy_iff.1 hj
  rw [hi] at hj
  cases hj
  rfl

theorem heldBy_join (h : l.heldBy i = true) (j : Nat) : (l.join j).heldBy i = true := by
  obtain ⟨rest, h⟩ := heldBy_iff.1 h
  exact heldBy_iff.2 ⟨rest ++ [j], by simp [Lock.join, h]⟩

theorem heldBy_leave (h : l.heldBy i = true) (hij : i ≠ j) : (l.leave j).heldBy i = true := by
  obtain ⟨rest, h⟩ := heldBy_iff.1 h
  exact heldBy_iff.2 ⟨rest.filter (· ≠ j), by simp [Lock.leave, h, hij]⟩

end
end MarketFeed
