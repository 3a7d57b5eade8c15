import MarketFeed.Text.Digits
import Mathlib.Algebra.Group.Nat.Defs
import Mathlib.Data.List.Induction

/-!
# MarketFeed.Proofs.Text.Digits

Decimal digits and the numerals of the standard library.

* `digits_eq_toDigits`, `number_eq_ofDigitChars` — both write and read the same.
* `number?_eq_some_iff` — which texts are numbers, and which.
* `digits_number` — a number is written as it was read, but for leading zeros.
* `number_paddedDigits`, `length_paddedDigits` — digits after leading zeros.
* `takeWhile_isDigit_append`, `dropWhile_isDigit_append` — the digits at the start of a text.
-/

namespace MarketFeed
namespace Text

theorem isDigit_eq (c : Char) : isDigit c = c.isDigit := by
  simp only [isDigit, Char.isDigit, UInt32.le_iff_toNat_le]
  rfl

theorem digitChar_eq : ∀ d, d < 10 → digitChar d = Nat.digitChar d := by decide

theorem digits_eq_toDigits (n : Nat) : digits n = Nat.toDigits 10 n := by
  rw [digits, Nat.toDigits_eq_if (by decide)]
  split
  · next h => rw [digitChar_eq n h]
  · rw [digits_eq_toDigits (n / 10), digitChar_eq (n % 10) (Nat.mod_lt _ (by decide))]
termination_by n
decreasing_by omega

theorem toList_toString (n : Nat) : (toString n).toList = digits n :=
  Nat.toList_repr.trans (digits_eq_toDigits n).symm

theorem number_eq_ofDigitChars (cs : List Char) : number cs = Nat.ofDigitChars 10 cs 0 := by
  rw [Nat.ofDigitChars_eq_foldl, number]
  congr 1
  funext n c
  rw [Nat.mul_comm]
  rfl

theorem number?_eq_some_iff {cs : List Char} {n : Nat} :
    number? cs = some n ↔
      cs ≠ [] ∧ (∀ c ∈ cs, c.isDigit = true) ∧ Nat.ofDigitChars 10 cs 0 = n := by
  simp only [number?, number_eq_ofDigitChars, List.all_eq_true, isDigit_eq]
  split
  · next h => exact ⟨fun hn => ⟨h.1, h.2, Option.some.inj hn⟩, fun hn => congrArg some hn.2.2⟩
  · next h =>
    simp only [reduceCtorEq, false_iff]
    exact fun hcs => h ⟨hcs.1, hcs.2.1⟩

theorem digitChar_digitValue {c : Char} (h : isDigit c = true) :
    digitValue c < 10 ∧ digitChar (digitValue c) = c := by
  simp only [isDigit, Bool.and_eq_true, decide_eq_true_eq] at h
  refine ⟨by rw [digitValue]; omega, ?_⟩
  rw [digitChar, digitValue, Nat.add_sub_cancel' h.1, Char.ofNat_toNat]

theorem digits_injective : Function.Injective digits := fun m n h => by
  rw [← number_digits m, h, number_digits]

/-- A number is written without leading zeros. -/
theorem head?_digits {n : Nat} (h : 0 < n) : (digits n).head? ≠ some '0' := by
  have hfirst : ∀ d, d < 10 → 0 < d → digitChar d ≠ '0' := by decide
  rw [digits]
  split
  · next hlt => exact fun hzero => hfirst n hlt h (Option.some.inj hzero)
  · have ih := head?_digits (n := n / 10) (by omega)
    obtain ⟨c, rest, hcs⟩ := List.exists_cons_of_ne_nil (digits_ne_nil (n / 10))
    rw [hcs] at ih ⊢
    exact ih
termination_by n
decreasing_by omega

theorem number_concat (ds : List Char) (c : Char) :
    number (ds ++ [c]) = number ds * 10 + digitValue c := by
  rw [number, List.foldl_append]
  rfl

theorem number_pos {ds : List Char} (hds : ds.all isDigit = true) {c : Char}
    (hfirst : ds.head? = some c) (hne : c ≠ '0') : 0 < number ds := by
  induction ds using List.reverseRecOn with
  | nil => cases hfirst
  | append_singleton ds d ih =>
    rw [List.all_append, Bool.and_eq_true] at hds
    rw [number_concat]
    cases ds with
    | nil =>
      cases hfirst
      obtain ⟨-, hc⟩ := digitChar_digitValue (c := c) (by simpa using hds.2)
      refine Nat.lt_of_lt_of_le (Nat.pos_of_ne_zero fun hzero => hne ?_) (Nat.le_add_left _ _)
      rw [← hc, hzero]
      rfl
    | cons e rest =>
      have hpos := ih hds.1 hfirst
      omega

/-- Digits without leading zeros are those of their number. -/
theorem digits_number {ds : List Char} (hne : ds ≠ []) (hds : ds.all isDigit = true)
    (hzero : ds.head? ≠ some '0' ∨ ds.length = 1) : digits (number ds) = ds := by
  induction ds using List.reverseRecOn with
  | nil => exact absurd rfl hne
  | append_singleton ds d ih =>
    rw [List.all_append, Bool.and_eq_true] at hds
    obtain ⟨hlt, hd⟩ := digitChar_digitValue (c := d) (by simpa using hds.2)
    rw [number_concat, digits]
    cases ds with
    | nil =>
      have hsmall : number [] * 10 + digitValue d < 10 := by
        rw [show number [] = 0 from rfl]
        omega
      rw [if_pos hsmall, show number [] * 10 + digitValue d = digitValue d from Nat.zero_add _, hd,
        List.nil_append]
    | cons e rest =>
      have hfirst : (e :: rest).head? ≠ some '0' := by
        rcases hzero with h | h
        · exact h
        · simp at h
      have hpos := number_pos hds.1 rfl fun h => hfirst (congrArg some h)
      have hdiv : (number (e :: rest) * 10 + digitValue d) / 10 = number (e :: rest) := by omega
      have hmod : (number (e :: rest) * 10 + digitValue d) % 10 = digitValue d := by omega
      rw [if_neg (by omega), hdiv, hmod, hd, ih (List.cons_ne_nil _ _) hds.1 (.inl hfirst)]

theorem number?_cons_of_not_isDigit {c : Char} (h : isDigit c = false) (cs : List Char) :
    number? (c :: cs) = none := by
  rw [number?, List.all_cons, h, if_neg fun hcs => Bool.false_ne_true hcs.2]

theorem number_append (ds es : List Char) :
    number (ds ++ es) = es.foldl (fun n c => n * 10 + digitValue c) (number ds) :=
  List.foldl_append

/-! ## Leading zeros -/

theorem all_isDigit_paddedDigits (width n : Nat) :
    (paddedDigits width n).all isDigit = true := by
  rw [paddedDigits, List.all_append, all_isDigit_digits, Bool.and_true, List.all_eq_true]
  intro c hc
  rw [List.eq_of_mem_replicate hc]
  rfl

theorem paddedDigits_ne_nil (width n : Nat) : paddedDigits width n ≠ [] := by
  simp [paddedDigits, digits_ne_nil]

theorem number_paddedDigits (width n : Nat) : number (paddedDigits width n) = n := by
  have hzeros (k : Nat) : number (List.replicate k '0') = 0 := by
    induction k with
    | zero => rfl
    | succ k ih => rw [List.replicate_succ', number_concat, ih]; rfl
  rw [paddedDigits, number_append, hzeros]
  exact number_digits n

theorem length_digits_le {n width : Nat} (hpos : 0 < width) (h : n < 10 ^ width) :
    (digits n).length ≤ width := by
  induction width generalizing n with
  | zero => omega
  | succ width ih =>
    rw [digits]
    split
    · simp
    · have hwidth : 0 < width := by
        rcases Nat.eq_zero_or_pos width with rfl | hpos
        · omega
        · exact hpos
      have hshort := ih (n := n / 10) hwidth (by rw [Nat.pow_succ] at h; omega)
      simpa using hshort

theorem length_paddedDigits {n width : Nat} (hpos : 0 < width) (h : n < 10 ^ width) :
    (paddedDigits width n).length = width := by
  have hshort := length_digits_le hpos h
  rw [paddedDigits, List.length_append, List.length_replicate]
  omega

theorem le_length_paddedDigits (width n : Nat) : width ≤ (paddedDigits width n).length := by
  rw [paddedDigits, List.length_append, List.length_replicate]
  omega

/-! ## The digits at the start of a text -/

/-- Digits are taken up to the first character that is none. -/
theorem takeWhile_isDigit_append {ds rest : List Char} (hds : ds.all isDigit = true)
    (hrest : ∀ c ∈ rest.head?, isDigit c = false) : (ds ++ rest).takeWhile isDigit = ds := by
  rw [List.takeWhile_append_of_pos fun c hc => List.all_eq_true.1 hds c hc]
  cases rest with
  | nil => simp
  | cons c rest => simp [hrest c rfl]

theorem dropWhile_isDigit_append {ds rest : List Char} (hds : ds.all isDigit = true)
    (hrest : ∀ c ∈ rest.head?, isDigit c = false) : (ds ++ rest).dropWhile isDigit = rest := by
  rw [List.dropWhile_append_of_pos fun c hc => List.all_eq_true.1 hds c hc]
  cases rest with
  | nil => simp
  | cons c rest => simp [hrest c rfl]

end Text
end MarketFeed
