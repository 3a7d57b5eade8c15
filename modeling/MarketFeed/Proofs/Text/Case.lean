import MarketFeed.Text.Case
import Mathlib.Data.List.Basic
import Mathlib.Data.Nat.Bitwise

/-!
# MarketFeed.Proofs.Text.Case

Upper case is final.

* `mapped`, `images` — the code points that have another upper case, and those that it consists of.
  `bits_disjoint` — none is both.
* `upperChar_of_mem`, `upperText_upperText` — what is in upper case stays as it is.
-/

namespace MarketFeed
namespace Text

/-! ## Sets of numbers -/

/-- A set of numbers as the bits of one. -/
def bits (l : List Nat) : Nat := l.foldr (fun n b => 2 ^ n ||| b) 0

theorem testBit_bits (l : List Nat) (n : Nat) : (bits l).testBit n = decide (n ∈ l) := by
  induction l with
  | nil => simp [bits]
  | cons m l ih =>
    have hbits : bits (m :: l) = 2 ^ m ||| bits l := rfl
    rw [hbits, Nat.testBit_or, ih, Nat.testBit_two_pow]
    simp [eq_comm]

theorem disjoint_of_bits {l m : List Nat} (h : bits l &&& bits m = 0) : ∀ n ∈ m, n ∉ l := by
  intro n hm hl
  have hbit := congrArg (Nat.testBit · n) h
  simp [Nat.testBit_and, testBit_bits, hm, hl] at hbit

/-! ## The tables -/

def CaseRun.points (r : CaseRun) : List Nat :=
  ((List.range (r.last + 1 - r.first)).filter fun i => i % r.step = 0).map (r.first + ·)

theorem CaseRun.mem_points {r : CaseRun} {n : Nat} : n ∈ r.points ↔ r.contains n = true := by
  simp only [points, contains, List.mem_map, List.mem_filter, List.mem_range, decide_eq_true_eq,
    Bool.and_eq_true]
  constructor
  · rintro ⟨i, ⟨hi, hstep⟩, rfl⟩
    rw [Nat.add_sub_cancel_left]
    exact ⟨⟨by omega, by omega⟩, hstep⟩
  · rintro ⟨⟨hfirst, hlast⟩, hstep⟩
    exact ⟨n - r.first, ⟨by omega, hstep⟩, by omega⟩

/-- The code points that have another upper case. -/
def mapped : List Nat := upperSequences.map Prod.fst ++ upperRuns.flatMap CaseRun.points

/-- The code points that the upper case of others consists of. -/
def images : List Nat :=
  upperSequences.flatMap Prod.snd ++
    upperRuns.flatMap fun r => r.points.map fun n : Nat => ((n : Int) + r.delta).toNat

/-- Of the two tables none is looked at twice: this is checked on their bits, as there are too many
pairs of runs to compare. -/
theorem bits_disjoint : bits mapped &&& bits images = 0 := by decide +kernel

theorem images_valid : images.all (fun n => decide n.isValidChar) = true := by decide +kernel

/-! ## Characters -/

theorem toNat_ofNat_of_valid {n : Nat} (h : n.isValidChar) : (Char.ofNat n).toNat = n := by
  rw [Char.ofNat, dif_pos h]
  rfl

/-- A small letter is mapped, so any other ASCII character is its own upper case. -/
theorem toUpper_of_not_mapped {c : Char} (h : c.toNat ∉ mapped) : c.toUpper = c := by
  refine dif_neg fun hletter => h (List.mem_append_right _ ?_)
  refine List.mem_flatMap.2 ⟨⟨0x61, 0x7A, 1, -32⟩, List.mem_cons_self, CaseRun.mem_points.2 ?_⟩
  have hfirst : 0x61 ≤ c.toNat := UInt32.le_iff_toNat_le.1 hletter.1
  have hlast : c.toNat ≤ 0x7A := UInt32.le_iff_toNat_le.1 hletter.2
  simp [CaseRun.contains, hfirst, hlast, Nat.mod_one]

theorem upperChar_of_not_mapped {c : Char} (h : c.toNat ∉ mapped) : upperChar c = [c] := by
  have hkeys : (upperSequences.find? fun s => s.1 == c.toNat) = none := by
    refine List.find?_eq_none.2 fun s hs heq => h (List.mem_append_left _ ?_)
    exact List.mem_map.2 ⟨s, hs, beq_iff_eq.1 heq⟩
  have hruns : (upperRuns.find? fun r => r.contains c.toNat) = none := by
    refine List.find?_eq_none.2 fun r hr hc => h (List.mem_append_right _ ?_)
    exact List.mem_flatMap.2 ⟨r, hr, CaseRun.mem_points.2 hc⟩
  rw [upperChar, toUpper_of_not_mapped h, mapChar, hkeys, hruns]
  split <;> rfl

theorem upperChar_of_image {n : Nat} (h : n ∈ images) :
    upperChar (Char.ofNat n) = [Char.ofNat n] := by
  have hvalid : n.isValidChar := by simpa using List.all_eq_true.1 images_valid n h
  refine upperChar_of_not_mapped ?_
  rw [toNat_ofNat_of_valid hvalid]
  exact disjoint_of_bits bits_disjoint n h

theorem toUpper_small : ∀ n < 0x80,
    (Char.ofNat n).toUpper.toNat < 0x80 ∧
      (Char.ofNat n).toUpper.toUpper = (Char.ofNat n).toUpper := by
  decide

/-- What an upper case consists of is in upper case. -/
theorem upperChar_of_mem {c d : Char} (h : d ∈ upperChar c) : upperChar d = [d] := by
  unfold upperChar at h
  split at h
  · next hsmall =>
    obtain rfl := List.mem_singleton.1 h
    obtain ⟨hlt, hsame⟩ := toUpper_small c.toNat hsmall
    rw [Char.ofNat_toNat] at hlt hsame
    rw [upperChar, if_pos hlt, hsame]
  · next hlarge =>
    unfold mapChar at h
    split at h
    · next s hs =>
      obtain ⟨n, hn, rfl⟩ := List.mem_map.1 h
      exact upperChar_of_image
        (List.mem_append_left _ (List.mem_flatMap.2 ⟨s, List.mem_of_find?_eq_some hs, hn⟩))
    · next hkeys =>
      split at h
      · next r hr =>
        obtain rfl := List.mem_singleton.1 h
        have hpoint : c.toNat ∈ r.points := by
          rw [CaseRun.mem_points]
          exact List.find?_some (p := fun r : CaseRun => r.contains c.toNat) hr
        exact upperChar_of_image (List.mem_append_right _ (List.mem_flatMap.2
          ⟨r, List.mem_of_find?_eq_some hr, List.mem_map.2 ⟨_, hpoint, rfl⟩⟩))
      · next hruns =>
        obtain rfl := List.mem_singleton.1 h
        rw [upperChar, if_neg hlarge, mapChar, hkeys, hruns]

theorem upper_upper (s : List Char) : upper (upper s) = upper s := by
  rw [upper, upper, List.flatMap_assoc]
  refine List.flatMap_congr fun c _ => ?_
  rw [List.flatMap_congr fun d hd => upperChar_of_mem hd, List.flatMap_singleton']

theorem upperText_upperText (s : String) : upperText (upperText s) = upperText s := by
  rw [upperText, upperText, String.toList_ofList, upper_upper]

end Text
end MarketFeed
