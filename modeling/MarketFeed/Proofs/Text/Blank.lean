import MarketFeed.Text.Blank
import MarketFeed.Text.Digits

/-!
# MarketFeed.Proofs.Text.Blank

* `Trims` — one text is another without the blanks around it.
* `trims_iff` — there is just one such text, and `trim` finds it.
-/

namespace MarketFeed
namespace Text

/-- `t` is `s` without the blanks around it. -/
def Trims (s t : List Char) : Prop :=
  ∃ before after, s = before ++ t ++ after ∧ (∀ c ∈ before ++ after, isBlank c = true) ∧
    (∀ c ∈ t.head?, isBlank c = false) ∧ ∀ c ∈ t.getLast?, isBlank c = false

theorem isBlank_of_isDigit {c : Char} (h : isDigit c = true) : isBlank c = false := by
  simp only [isDigit, Bool.and_eq_true, decide_eq_true_eq] at h
  simp only [isBlank, blankRanges, List.any_cons, List.any_nil, Bool.or_false,
    Bool.or_eq_false_iff, Bool.and_eq_false_iff, decide_eq_false_iff_not]
  omega

theorem dropWhile_of_head? {p : Char → Bool} (cs : List Char)
    (h : ∀ c ∈ cs.head?, p c = false) : cs.dropWhile p = cs := by
  cases cs with
  | nil => rfl
  | cons c rest => rw [List.dropWhile_cons, h c rfl, if_neg Bool.false_ne_true]

theorem head?_dropWhile {p : Char → Bool} (cs : List Char) :
    ∀ c ∈ (cs.dropWhile p).head?, p c = false := by
  intro c hc
  have h := List.head?_dropWhile_not p cs
  rw [Option.mem_def] at hc
  rw [hc] at h
  simpa using h

theorem trim_of_trims {s t : List Char} (h : Trims s t) : trim s = t := by
  obtain ⟨before, after, rfl, hblank, hfirst, hlast⟩ := h
  have hbefore : ∀ c ∈ before, isBlank c = true := fun c hc => hblank c (List.mem_append_left _ hc)
  have hafter : ∀ c ∈ after.reverse, isBlank c = true := fun c hc =>
    hblank c (List.mem_append_right _ (List.mem_reverse.1 hc))
  rw [trim, trimStart, List.append_assoc, List.dropWhile_append_of_pos hbefore]
  cases t with
  | nil =>
    have hnone : (after ++ []).dropWhile isBlank = [].dropWhile isBlank :=
      List.dropWhile_append_of_pos fun c hc => hblank c (List.mem_append_right before hc)
    rw [List.append_nil] at hnone
    rw [List.nil_append, hnone]
    rfl
  | cons c rest =>
    rw [dropWhile_of_head? (c :: rest ++ after) hfirst, trimEnd, List.reverse_append,
      List.dropWhile_append_of_pos hafter, dropWhile_of_head? _ (by rwa [List.head?_reverse]),
      List.reverse_reverse]

theorem trims_trim (s : List Char) : Trims s (trim s) := by
  have hstart : s = s.takeWhile isBlank ++ trimStart s := List.takeWhile_append_dropWhile.symm
  have hend : trimStart s = trim s ++ ((trimStart s).reverse.takeWhile isBlank).reverse := by
    rw [trim, trimEnd, ← List.reverse_append, List.takeWhile_append_dropWhile,
      List.reverse_reverse]
  refine ⟨s.takeWhile isBlank, ((trimStart s).reverse.takeWhile isBlank).reverse, ?_, ?_, ?_, ?_⟩
  · rw [List.append_assoc, ← hend]
    exact hstart
  · intro c hc
    rcases List.mem_append.1 hc with hc | hc
    · exact List.all_eq_true.1 List.all_takeWhile c hc
    · exact List.all_eq_true.1 List.all_takeWhile c (List.mem_reverse.1 hc)
  · intro c hc
    refine head?_dropWhile s c ?_
    rw [← trimStart, hend, List.head?_append]
    rw [Option.mem_def] at hc ⊢
    rw [hc]
    rfl
  · intro c hc
    rw [trim, trimEnd, List.getLast?_reverse] at hc
    exact head?_dropWhile _ c hc

theorem trims_iff {s t : List Char} : Trims s t ↔ t = trim s :=
  ⟨fun h => (trim_of_trims h).symm, fun h => h ▸ trims_trim s⟩

end Text
end MarketFeed
