/-!
# MarketFeed.Proofs.Tasks.Numbered

Lists of things that go by their numbers or names, of which one is changed and keeps its own.

* `find?_update_self`, `find?_update_of_ne` — what is found under a number then.
* `map_number_update` — the numbers stay.
-/

namespace MarketFeed

section

variable {α κ : Type} [DecidableEq κ] (number : α → κ) {f : α → α} {l : List α} {n : κ}

theorem number_update (hf : ∀ a, number a = n → number (f a) = n) (a : α) :
    number (if number a = n then f a else a) = number a := by
  split
  · rename_i ha
    rw [hf a ha, ha]
  · rfl

theorem map_number_update (hf : ∀ a, number a = n → number (f a) = n) :
    (l.map fun a => if number a = n then f a else a).map number = l.map number := by
  rw [List.map_map]
  exact List.map_congr_left fun a _ => number_update number hf a

theorem find?_update (hf : ∀ a, number a = n → number (f a) = n) (m : κ) :
    (l.map fun a => if number a = n then f a else a).find? (fun a => number a = m) =
      (l.find? fun a => number a = m).map fun a => if number a = n then f a else a := by
  rw [List.find?_map]
  congr 2
  funext a
  rw [Function.comp_apply, number_update number hf]

theorem find?_update_self {a : α} (hf : ∀ a, number a = n → number (f a) = n)
    (h : l.find? (fun a => number a = n) = some a) :
    (l.map fun a => if number a = n then f a else a).find? (fun a => number a = n) =
      some (f a) := by
  have ha : number a = n := by simpa using List.find?_some h
  rw [find?_update number hf, h, Option.map_some, if_pos ha]

theorem find?_update_of_ne {m : κ} (hf : ∀ a, number a = n → number (f a) = n) (hne : m ≠ n) :
    (l.map fun a => if number a = n then f a else a).find? (fun a => number a = m) =
      l.find? fun a => number a = m := by
  rw [find?_update number hf]
  cases h : l.find? fun a => number a = m with
  | none => rfl
  | some a =>
    have ha : number a = m := by simpa using List.find?_some h
    rw [Option.map_some, if_neg (by rw [ha]; exact hne)]

end
end MarketFeed
