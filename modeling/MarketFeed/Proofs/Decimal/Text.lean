import MarketFeed.Decimal.Reader
import MarketFeed.Proofs.Text.Digits

/-!
# MarketFeed.Proofs.Decimal.Text

A decimal is read back from its text, with as many places.

* `readUnsigned?_whole`, `readUnsigned?_fraction` — the digits before and behind the point.
* `positional?_chars`, `ofText?_text` — the whole.
-/

namespace MarketFeed
namespace Decimal

open Text (isDigit digitValue paddedDigits)

/-- A number with more digits behind it. -/
def extended (n : Nat) (ds : List Char) : Nat := ds.foldl (fun n c => n * 10 + digitValue c) n

theorem extended_cons (n : Nat) (c : Char) (ds : List Char) :
    extended n (c :: ds) = extended (n * 10 + digitValue c) ds := by
  simp only [extended, List.foldl_cons]

theorem le_extended (n : Nat) (ds : List Char) : n ≤ extended n ds := by
  induction ds generalizing n with
  | nil => exact Nat.le_refl n
  | cons c ds ih =>
    have hmore := ih (n * 10 + digitValue c)
    rw [extended_cons]
    omega

/-- Digits before the point. -/
theorem readUnsigned?_whole {ds : List Char} (hds : ds.all isDigit = true) {n : Nat} {digit : Bool}
    (hbound : extended n ds < mantissaBound) (rest : List Char) :
    readUnsigned? ⟨n, 0, false, digit⟩ (ds ++ rest) =
      readUnsigned? ⟨extended n ds, 0, false, digit || !ds.isEmpty⟩ rest := by
  induction ds generalizing n digit with
  | nil => simp [extended]
  | cons c ds ih =>
    rw [List.all_cons, Bool.and_eq_true] at hds
    rw [extended_cons] at hbound ⊢
    have hfits : n * 10 + digitValue c < mantissaBound :=
      Nat.lt_of_le_of_lt (le_extended _ ds) hbound
    rw [List.cons_append, readUnsigned?]
    simp [hds.1, hfits, ih hds.2 hbound]

/-- Digits behind the point, as many as there may be places. -/
theorem readUnsigned?_fraction {ds : List Char} (hds : ds.all isDigit = true) {n scale : Nat}
    (hbound : extended n ds < mantissaBound) (hscale : scale + ds.length ≤ maxScale) :
    readUnsigned? ⟨n, scale, true, true⟩ ds =
      some ⟨extended n ds, scale + ds.length, true, true⟩ := by
  induction ds generalizing n scale with
  | nil => rfl
  | cons c ds ih =>
    rw [List.all_cons, Bool.and_eq_true] at hds
    rw [extended_cons] at hbound ⊢
    rw [List.length_cons] at hscale ⊢
    have hfits : n * 10 + digitValue c < mantissaBound :=
      Nat.lt_of_le_of_lt (le_extended _ ds) hbound
    have hplaces : ¬ maxScale ≤ scale := by omega
    have hrest : readUnsigned? ⟨n * 10 + digitValue c, scale + 1, true, true⟩ ds = _ :=
      ih hds.2 hbound (by omega)
    rw [readUnsigned?]
    simp [hds.1, hfits, hplaces, hrest]
    omega

theorem extended_number (ds es : List Char) :
    extended (Text.number ds) es = Text.number (ds ++ es) := (Text.number_append ds es).symm

theorem readUnsigned?_digits {ds : List Char} (hne : ds ≠ []) (hds : ds.all isDigit = true)
    (hbound : Text.number ds < mantissaBound) (rest : List Char) :
    readUnsigned? ⟨0, 0, false, false⟩ (ds ++ rest) =
      readUnsigned? ⟨Text.number ds, 0, false, true⟩ rest := by
  obtain ⟨d, more, rfl⟩ := List.exists_cons_of_ne_nil hne
  exact readUnsigned?_whole hds hbound rest

/-- A magnitude with its places. -/
theorem readUnsigned?_placed {magnitude scale : Nat} (hbound : magnitude < mantissaBound)
    (hscale : scale ≤ maxScale) :
    ∃ point, readUnsigned? ⟨0, 0, false, false⟩ (placed magnitude scale) =
      some ⟨magnitude, scale, point, true⟩ := by
  have hdigits := Text.all_isDigit_paddedDigits (scale + 1) magnitude
  have hnumber := Text.number_paddedDigits (scale + 1) magnitude
  have hlength := Text.le_length_paddedDigits (scale + 1) magnitude
  have hne := Text.paddedDigits_ne_nil (scale + 1) magnitude
  rw [placed]
  generalize paddedDigits (scale + 1) magnitude = ds at *
  subst hnumber
  split
  · next hzero =>
    subst hzero
    have hread := readUnsigned?_digits hne hdigits hbound []
    rw [List.append_nil] at hread
    exact ⟨false, hread⟩
  · -- the digits before the point, and as many behind it as there are places
    obtain ⟨whole, fraction, hsplit, hwhole, hfraction⟩ : ∃ whole fraction,
        ds = whole ++ fraction ∧ ds.take (ds.length - scale) = whole ∧
          ds.drop (ds.length - scale) = fraction :=
      ⟨_, _, (List.take_append_drop _ _).symm, rfl, rfl⟩
    have hplaces : fraction.length = scale := by
      rw [← hfraction, List.length_drop]
      omega
    have hbefore : whole ≠ [] := by
      intro hnil
      rw [hsplit, hnil, List.nil_append] at hlength
      omega
    rw [hwhole, hfraction, hsplit]
    rw [hsplit, List.all_append, Bool.and_eq_true] at hdigits
    rw [hsplit, ← extended_number] at hbound
    have hsmall : Text.number whole < mantissaBound :=
      Nat.lt_of_le_of_lt (le_extended _ fraction) hbound
    have hpoint : readUnsigned? ⟨Text.number whole, 0, false, true⟩ ('.' :: fraction) =
        readUnsigned? ⟨Text.number whole, 0, true, true⟩ fraction := by
      rw [readUnsigned?]
      simp [isDigit]
    have hread : readUnsigned? ⟨Text.number whole, 0, true, true⟩ fraction = _ :=
      readUnsigned?_fraction hdigits.2 hbound (by omega)
    refine ⟨true, ?_⟩
    rw [readUnsigned?_digits hbefore hdigits.1 hsmall, hpoint, hread, Nat.zero_add, hplaces,
      extended_number]

/-- A text that begins with a digit has no sign. -/
theorem sign_of_isDigit {cs : List Char} (h : ∀ c ∈ cs.head?, isDigit c = true) :
    sign cs = (false, cs) := by
  unfold sign
  split
  · exact absurd (h '-' rfl) (by decide)
  · exact absurd (h '+' rfl) (by decide)
  · rfl

theorem isDigit_head?_placed (magnitude scale : Nat) :
    ∀ c ∈ (placed magnitude scale).head?, isDigit c = true := by
  have hdigits := Text.all_isDigit_paddedDigits (scale + 1) magnitude
  have hlength := Text.le_length_paddedDigits (scale + 1) magnitude
  obtain ⟨d, ds, hds⟩ := List.exists_cons_of_ne_nil
    (Text.paddedDigits_ne_nil (scale + 1) magnitude)
  rw [hds] at hdigits hlength
  rw [List.all_cons, Bool.and_eq_true] at hdigits
  obtain ⟨k, hk⟩ : ∃ k, (d :: ds).length - scale = k + 1 := ⟨(d :: ds).length - scale - 1, by omega⟩
  intro c hc
  rw [placed, hds, hk] at hc
  split at hc
  all_goals
    cases hc
    exact hdigits.1

theorem positional?_chars (d : Decimal) : positional? d.chars = some d := by
  obtain ⟨point, hread⟩ := readUnsigned?_placed d.units_lt d.scale_le
  have hparts (negative : Bool) (h : (if negative then -(d.units.natAbs : Int) else
      d.units.natAbs) = d.units) : ofParts? negative d.units.natAbs d.scale = some d := by
    rw [ofParts?, h, ofUnits?, dif_pos ⟨d.units_lt, d.scale_le⟩]
  rw [chars]
  split
  · next hnegative =>
    have hsign : sign ('-' :: placed d.units.natAbs d.scale) =
      (true, placed d.units.natAbs d.scale) := rfl
    rw [positional?, hsign]
    dsimp only
    rw [hread, Option.bind_some]
    exact hparts true (by rw [if_pos rfl]; omega)
  · next hpositive =>
    rw [positional?, sign_of_isDigit (isDigit_head?_placed _ _)]
    dsimp only
    rw [hread, Option.bind_some]
    exact hparts false (by rw [if_neg Bool.false_ne_true]; omega)

/-- A decimal is read back from its text. -/
theorem ofText?_text (d : Decimal) : ofText? d.text = some d := by
  rw [ofText?, text, String.toList_ofList, read?, positional?_chars]
  rfl

end Decimal
end MarketFeed
