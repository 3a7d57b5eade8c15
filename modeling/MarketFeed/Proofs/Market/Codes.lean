import MarketFeed.Market.Interval
import MarketFeed.Text.Integer
import MarketFeed.Proofs.Text.Blank
import MarketFeed.Proofs.Text.Digits
import MarketFeed.Proofs.Text.Utf8

/-!
# MarketFeed.Proofs.Market.Codes

Which texts are interval codes, and of which intervals.

* `Counts`, `Spells` — the spellings of an interval, by what they consist of.
* `ofCode?_eq_some_iff` — these and no others are read.
* `Plain`, `spells_plain_iff` — of the spellings of an interval the code is the one without plus
  sign and leading zeros.
* `parseAt?` — reading that divides the text at a byte and may fail there.
* `codes_parsed` — all of it, blanks around the code included.
-/

namespace MarketFeed
namespace Interval

/-! ## Spellings -/

/-- An optional plus sign and ASCII digits, in value from 1 to 4294967295. -/
def Counts (cs : List Char) (n : UInt32) : Prop :=
  ∃ ds, (cs = ds ∨ cs = '+' :: ds) ∧ ds ≠ [] ∧ (∀ c ∈ ds, c.isDigit = true) ∧
    Nat.ofDigitChars 10 ds 0 = n.toNat ∧ n ≠ 0

inductive Spells : List Char → Interval → Prop
  | second {cs : List Char} {n : UInt32} (h : Counts cs n) : Spells (cs ++ ['s']) (.second n)
  | minute {cs : List Char} {n : UInt32} (h : Counts cs n) : Spells (cs ++ ['m']) (.minute n)
  | hour {cs : List Char} {n : UInt32} (h : Counts cs n) : Spells (cs ++ ['h']) (.hour n)
  | daily : Spells ['1', 'd'] .daily
  | weekly : Spells ['1', 'w'] .weekly
  | monthly : Spells ['1', 'M'] .monthly

theorem word_eq_some_iff {ds : List Char} {n : Nat} :
    ((Text.number? ds).bind fun n => if n < 4294967296 then some n else none) = some n ↔
      Text.number? ds = some n ∧ n < 4294967296 := by
  rw [Option.bind_eq_some_iff]
  constructor
  · rintro ⟨m, hm, hn⟩
    split at hn
    · cases hn
      exact ⟨hm, by assumption⟩
    · cases hn
  · rintro ⟨hn, hlt⟩
    exact ⟨n, hn, if_pos hlt⟩

theorem word32?_plus {ds : List Char} {n : Nat} :
    Decimal.word32? ('+' :: ds) = some n ↔ Text.number? ds = some n ∧ n < 4294967296 :=
  word_eq_some_iff

theorem word32?_of_ne_plus {cs : List Char} {n : Nat} (h : ∀ ds, cs ≠ '+' :: ds) :
    Decimal.word32? cs = some n ↔ Text.number? cs = some n ∧ n < 4294967296 := by
  unfold Decimal.word32?
  dsimp only
  split
  · next ds => exact absurd rfl (h ds)
  · exact word_eq_some_iff

theorem word32?_eq_some_iff {cs : List Char} {n : Nat} :
    Decimal.word32? cs = some n ↔
      ∃ ds, (cs = ds ∨ cs = '+' :: ds) ∧ Text.number? ds = some n ∧ n < 4294967296 := by
  by_cases h : ∀ ds, cs ≠ '+' :: ds
  · rw [word32?_of_ne_plus h]
    exact ⟨fun hn => ⟨cs, .inl rfl, hn⟩, fun ⟨ds, hcs, hn⟩ => hcs.elim (· ▸ hn) (absurd · (h ds))⟩
  · obtain ⟨ds, hcs⟩ := not_forall.1 h
    obtain rfl := Decidable.not_not.1 hcs
    rw [word32?_plus]
    refine ⟨fun hn => ⟨ds, .inr rfl, hn⟩, ?_⟩
    rintro ⟨ds', rfl | hds, hn⟩
    · rw [Text.number?_cons_of_not_isDigit (by decide)] at hn
      cases hn.1
    · cases hds
      exact hn

theorem counts_iff {cs : List Char} {n : UInt32} :
    Counts cs n ↔ Decimal.word32? cs = some n.toNat ∧ n ≠ 0 := by
  simp only [word32?_eq_some_iff, Text.number?_eq_some_iff]
  constructor
  · rintro ⟨ds, hcs, hds, hdigits, hn, hne⟩
    exact ⟨⟨ds, hcs, ⟨hds, hdigits, hn⟩, n.toNat_lt⟩, hne⟩
  · rintro ⟨⟨ds, hcs, ⟨hds, hdigits, hn⟩, -⟩, hne⟩
    exact ⟨ds, hcs, hds, hdigits, hn, hne⟩

theorem ofUnit?_eq_some_iff {unit : Char} {n : UInt32} {i : Interval} :
    ofUnit? unit n = some i ↔
      (unit = 's' ∧ i = .second n) ∨ (unit = 'm' ∧ i = .minute n) ∨ (unit = 'h' ∧ i = .hour n) := by
  rw [ofUnit?]
  split
  · next h => subst h; simp [eq_comm]
  · split
    · next h => subst h; simp [eq_comm]
    · split
      · next h => subst h; simp [eq_comm]
      · simp [*]

/-- What is read if the text is none of the three fixed codes. -/
theorem counted_eq_some_iff {cs : List Char} {unit : Char} {i : Interval} :
    ((Decimal.word32? cs).bind fun n =>
        if n = 0 then none else ofUnit? unit (UInt32.ofNat n)) = some i ↔
      ∃ n, Counts cs n ∧
        ((unit = 's' ∧ i = .second n) ∨ (unit = 'm' ∧ i = .minute n) ∨
          (unit = 'h' ∧ i = .hour n)) := by
  simp only [counts_iff, ← ofUnit?_eq_some_iff]
  rw [Option.bind_eq_some_iff]
  constructor
  · rintro ⟨m, hm, hi⟩
    obtain ⟨-, -, -, hlt⟩ := word32?_eq_some_iff.1 hm
    have hnat : (UInt32.ofNat m).toNat = m := UInt32.toNat_ofNat_of_lt' hlt
    split at hi
    · cases hi
    · next hne =>
      refine ⟨UInt32.ofNat m, ⟨by rw [hnat, hm], ?_⟩, hi⟩
      rintro h
      rw [h] at hnat
      exact hne hnat.symm
  · rintro ⟨n, ⟨hn, hne⟩, hi⟩
    refine ⟨n.toNat, hn, ?_⟩
    have hpos : n.toNat ≠ 0 := fun h => hne (UInt32.toNat_inj.1 h)
    rw [if_neg hpos, UInt32.ofNat_toNat]
    exact hi

/-- The unit of a counted code is told from those of the fixed ones by its last character. -/
theorem concat_ne_fixed (cs : List Char) {unit : Char} (h : unit = 's' ∨ unit = 'm' ∨ unit = 'h') :
    cs ++ [unit] ≠ ['1', 'd'] ∧ cs ++ [unit] ≠ ['1', 'w'] ∧ cs ++ [unit] ≠ ['1', 'M'] := by
  have hlast : ∀ fixed, cs ++ [unit] = ['1', fixed] → unit = fixed := by
    intro fixed hcs
    have hunit := congrArg List.getLast? hcs
    rw [List.getLast?_concat] at hunit
    exact Option.some.inj hunit
  refine ⟨fun hcs => ?_, fun hcs => ?_, fun hcs => ?_⟩ <;> have hunit := hlast _ hcs <;>
    subst hunit <;> simp at h

theorem ofCode?_concat {cs : List Char} {unit : Char} (h : unit = 's' ∨ unit = 'm' ∨ unit = 'h') :
    ofCode? (cs ++ [unit]) =
      (Decimal.word32? cs).bind fun n =>
        if n = 0 then none else ofUnit? unit (UInt32.ofNat n) := by
  obtain ⟨hday, hweek, hmonth⟩ := concat_ne_fixed cs h
  rw [ofCode?, if_neg hday, if_neg hweek, if_neg hmonth, List.getLast?_concat,
    List.dropLast_concat]

theorem ofCode?_eq_some_iff {cs : List Char} {i : Interval} :
    ofCode? cs = some i ↔ Spells cs i := by
  constructor
  · intro h
    rw [ofCode?] at h
    split at h
    · next hcs => subst hcs; cases h; exact .daily
    split at h
    · next hcs => subst hcs; cases h; exact .weekly
    split at h
    · next hcs => subst hcs; cases h; exact .monthly
    split at h
    · cases h
    · next unit hlast =>
      obtain ⟨count, rfl⟩ := List.getLast?_eq_some_iff.1 hlast
      rw [List.dropLast_concat] at h
      obtain ⟨n, hn, ⟨rfl, rfl⟩ | ⟨rfl, rfl⟩ | ⟨rfl, rfl⟩⟩ := counted_eq_some_iff.1 h
      · exact .second hn
      · exact .minute hn
      · exact .hour hn
  · intro h
    cases h with
    | second h | minute h | hour h =>
      rw [ofCode?_concat (by simp), counted_eq_some_iff]
      exact ⟨_, h, by simp⟩
    | daily | weekly | monthly => rfl

/-! ## The code of an interval -/

/-- Counted intervals that have a length. -/
def Positive : Interval → Prop
  | .second n => n ≠ 0
  | .minute n => n ≠ 0
  | .hour n => n ≠ 0
  | _ => True

theorem counts_digits {n : UInt32} (h : n ≠ 0) : Counts (Text.digits n.toNat) n := by
  obtain ⟨hne, hdigits, hvalue⟩ := Text.number?_eq_some_iff.1 (Text.digits_number? n.toNat)
  exact ⟨_, .inl rfl, hne, hdigits, hvalue, h⟩

theorem spells_codeChars {i : Interval} (h : i.Positive) : Spells i.codeChars i := by
  cases i with
  | second n => exact .second (counts_digits h)
  | minute n => exact .minute (counts_digits h)
  | hour n => exact .hour (counts_digits h)
  | daily => exact .daily
  | weekly => exact .weekly
  | monthly => exact .monthly

theorem Spells.positive {cs : List Char} {i : Interval} (h : Spells cs i) : i.Positive := by
  cases h with
  | second h | minute h | hour h =>
    obtain ⟨-, -, -, -, -, hne⟩ := h
    exact hne
  | daily | weekly | monthly => trivial

/-- Neither a plus sign nor a zero comes first. -/
def Plain (cs : List Char) : Prop := cs.head? ≠ some '+' ∧ cs.head? ≠ some '0'

theorem Counts.eq_digits {cs : List Char} {n : UInt32} {unit : Char} (h : Counts cs n)
    (hplain : Plain (cs ++ [unit])) : cs = Text.digits n.toNat := by
  obtain ⟨ds, rfl | rfl, hne, hdigits, hvalue, -⟩ := h
  · obtain ⟨c, rest, rfl⟩ := List.exists_cons_of_ne_nil hne
    have hall : (c :: rest).all Text.isDigit = true := by
      rw [List.all_eq_true]
      exact fun d hd => (Text.isDigit_eq d).trans (hdigits d hd)
    rw [← hvalue, ← Text.number_eq_ofDigitChars, Text.digits_number hne hall (.inl hplain.2)]
  · exact absurd rfl hplain.1

theorem plain_digits {n : UInt32} (h : n ≠ 0) (unit : Char) :
    Plain (Text.digits n.toNat ++ [unit]) := by
  have hpos : 0 < n.toNat := Nat.pos_of_ne_zero fun hzero => h (UInt32.toNat_inj.1 hzero)
  have hall := Text.all_isDigit_digits n.toNat
  have hzero := Text.head?_digits hpos
  obtain ⟨c, rest, hcs⟩ := List.exists_cons_of_ne_nil (Text.digits_ne_nil n.toNat)
  rw [hcs] at hall hzero ⊢
  refine ⟨fun hplus => ?_, hzero⟩
  cases hplus
  simp [Text.isDigit] at hall

theorem plain_codeChars {i : Interval} (h : i.Positive) : Plain i.codeChars := by
  cases i with
  | second n | minute n | hour n => exact plain_digits h _
  | daily | weekly | monthly => exact ⟨by decide, by decide⟩

/-- The code is the only spelling without plus sign and leading zeros. -/
theorem spells_plain_iff {cs : List Char} {i : Interval} :
    Spells cs i ∧ Plain cs ↔ i.Positive ∧ cs = i.codeChars := by
  constructor
  · rintro ⟨h, hplain⟩
    refine ⟨h.positive, ?_⟩
    cases h with
    | second h | minute h | hour h => rw [h.eq_digits hplain]; rfl
    | daily | weekly | monthly => rfl
  · rintro ⟨h, rfl⟩
    exact ⟨spells_codeChars h, plain_codeChars h⟩

theorem codeChars_injective : Function.Injective codeChars := by
  intro i j h
  have hlast := congrArg List.getLast? h
  -- Different units end in different characters.
  cases i <;> cases j <;>
    simp only [codeChars, List.getLast?_concat, Option.some.injEq, Char.reduceEq,
      List.append_cancel_right_eq] at h hlast <;>
    first
      | rfl
      | simp at hlast
      | rw [UInt32.toNat_inj.1 (Text.digits_injective h)]

/-! ## Reading at bytes -/

/-- Where each character of a text begins, in bytes. -/
def beginnings (start : Nat) : List Char → List Nat
  | [] => []
  | c :: rest => start :: beginnings (start + c.utf8Size) rest

/-- A text in two at a byte; none inside a character and behind the end. -/
def divideAt? : Nat → List Char → Option (List Char × List Char)
  | 0, cs => some ([], cs)
  | _ + 1, [] => none
  | k + 1, c :: rest =>
    if c.utf8Size ≤ k + 1 then
      (divideAt? (k + 1 - c.utf8Size) rest).map fun p => (c :: p.1, p.2)
    else none

theorem length_encode_cons (c : Char) (cs : List Char) :
    (Text.encode (c :: cs)).length = c.utf8Size + (Text.encode cs).length := by
  rw [Text.encode_cons, List.length_append, Text.length_encodeChar]

theorem beginnings_concat (start : Nat) (cs : List Char) (c : Char) :
    beginnings start (cs ++ [c]) = beginnings start cs ++ [start + (Text.encode cs).length] := by
  induction cs generalizing start with
  | nil => rfl
  | cons d rest ih =>
    rw [List.cons_append, beginnings, ih, Nat.add_assoc, ← length_encode_cons]
    rfl

theorem divideAt?_length_encode (cs rest : List Char) :
    divideAt? (Text.encode cs).length (cs ++ rest) = some (cs, rest) := by
  induction cs with
  | nil => cases rest <;> rfl
  | cons c cs ih =>
    have hpos := c.utf8Size_pos
    obtain ⟨k, hk⟩ : ∃ k, c.utf8Size + (Text.encode cs).length = k + 1 :=
      ⟨c.utf8Size - 1 + (Text.encode cs).length, by omega⟩
    rw [length_encode_cons, hk, List.cons_append, divideAt?, if_pos (by omega), ← hk,
      Nat.add_sub_cancel_left, ih]
    rfl

/-- Reads a code without blanks around it: the text is divided at the byte where its last character
begins, and its count is read digit by digit, never beyond 32 bits. None if the text cannot be
divided there. -/
def parseAt? (cs : List Char) : Option (Except IntervalError Interval) :=
  let refused : Except IntervalError Interval := .error ⟨String.ofList cs⟩
  if cs = ['1', 'd'] then some (.ok .daily)
  else if cs = ['1', 'w'] then some (.ok .weekly)
  else if cs = ['1', 'M'] then some (.ok .monthly)
  else
    match (beginnings 0 cs).getLast? with
    | none => some refused
    | some k =>
      (divideAt? k cs).map fun p =>
        match Text.integer 0 4294967295 p.1 with
        | .error _ => refused
        | .ok n =>
          if n = 0 then refused
          else if p.2 = ['s'] then .ok (.second (.ofNat n.toNat))
          else if p.2 = ['m'] then .ok (.minute (.ofNat n.toNat))
          else if p.2 = ['h'] then .ok (.hour (.ofNat n.toNat))
          else refused

theorem le_number_append (n : Nat) (cs : List Char) :
    n ≤ cs.foldl (fun n c => n * 10 + Text.digitValue c) n := by
  induction cs generalizing n with
  | nil => exact Nat.le_refl n
  | cons c rest ih => exact Nat.le_trans (by omega) (ih (n * 10 + Text.digitValue c))

/-- Digit by digit the same is read as all at once. -/
theorem magnitude_eq_ok_iff {bound n m : Nat} {e : Text.IntegerError} (hn : n ≤ bound)
    {cs : List Char} :
    Text.magnitude bound e n cs = .ok m ↔
      cs.all Text.isDigit = true ∧ cs.foldl (fun n c => n * 10 + Text.digitValue c) n = m ∧
        m ≤ bound := by
  induction cs generalizing n with
  | nil =>
    refine ⟨fun h => ?_, fun h => congrArg _ h.2.1⟩
    cases h
    exact ⟨rfl, rfl, hn⟩
  | cons c rest ih =>
    have hle := le_number_append (n * 10 + Text.digitValue c) rest
    rw [Text.magnitude, List.all_cons, List.foldl_cons]
    split
    · next hc =>
      dsimp only
      split
      · next hfits => rw [ih hfits, hc, Bool.true_and]
      · next hlarge =>
        refine ⟨fun h => (nomatch h), fun h => absurd ?_ hlarge⟩
        exact Nat.le_trans (Nat.le_trans hle (Nat.le_of_eq h.2.1)) h.2.2
    · next hc => exact ⟨fun h => (nomatch h), fun h => by simp [hc] at h⟩

theorem magnitude_eq_ok {e : Text.IntegerError} {ds : List Char} {n : Nat} (hds : ds ≠ []) :
    Text.magnitude 4294967295 e 0 ds = .ok n ↔ Text.number? ds = some n ∧ n < 4294967296 := by
  rw [magnitude_eq_ok_iff (Nat.zero_le _), Text.number?]
  constructor
  · rintro ⟨hall, hvalue, hle⟩
    rw [if_pos ⟨hds, hall⟩]
    exact ⟨congrArg some hvalue, by omega⟩
  · rintro ⟨hn, hlt⟩
    split at hn
    · next h => exact ⟨h.2, Option.some.inj hn, by omega⟩
    · cases hn

theorem integer_eq_ok_iff {cs : List Char} {i : Int} :
    Text.integer 0 4294967295 cs = .ok i ↔ ∃ n : Nat, Decimal.word32? cs = some n ∧ i = n := by
  have hmap : ∀ {x : Except Text.IntegerError Nat},
      x.map Int.ofNat = .ok i ↔ ∃ n : Nat, x = .ok n ∧ i = n := by
    intro x
    cases x with
    | error e => simp [Except.map]
    | ok n => simp [Except.map, eq_comm]
  have hrefused : ∀ ds, Decimal.word32? ('-' :: ds) = none := fun ds => by
    refine Option.eq_none_iff_forall_ne_some.2 fun n hn => ?_
    have hnumber := (word32?_of_ne_plus (by simp)).1 hn
    rw [Text.number?_cons_of_not_isDigit (by decide)] at hnumber
    cases hnumber.1
  have hnone : ∀ {cs}, Decimal.word32? cs = none →
      ¬∃ n : Nat, Decimal.word32? cs = some n ∧ i = n :=
    fun hcs ⟨n, hn, _⟩ => by rw [hcs] at hn; cases hn
  unfold Text.integer
  split
  · exact ⟨fun h => (nomatch h), fun h => absurd h (hnone rfl)⟩
  · exact ⟨fun h => (nomatch h), fun h => absurd h (hnone rfl)⟩
  · exact ⟨fun h => (nomatch h), fun h => absurd h (hnone (hrefused []))⟩
  · next ds hds => simp only [hmap, magnitude_eq_ok hds, word32?_plus]
  · next ds _ => exact ⟨fun h => (nomatch h), fun h => absurd h (hnone (hrefused ds))⟩
  · next hds _ _ hplus _ =>
    simp only [hmap, magnitude_eq_ok hds, word32?_of_ne_plus hplus]

theorem parseAt?_eq (cs : List Char) :
    parseAt? cs =
      some (match ofCode? cs with
        | some i => .ok i
        | none => .error ⟨String.ofList cs⟩) := by
  rw [parseAt?, ofCode?]
  split
  · rfl
  split
  · rfl
  split
  · rfl
  rcases List.eq_nil_or_concat cs with rfl | ⟨count, unit, rfl⟩
  · rfl
  rw [List.concat_eq_append, beginnings_concat, List.getLast?_concat, List.getLast?_concat,
    List.dropLast_concat, Nat.zero_add]
  dsimp only
  rw [divideAt?_length_encode, Option.map_some]
  refine congrArg some ?_
  cases hcount : Text.integer 0 4294967295 count with
  | error e =>
    have hnone : Decimal.word32? count = none := by
      refine Option.eq_none_iff_forall_ne_some.2 fun n hn => ?_
      rw [integer_eq_ok_iff.2 ⟨n, hn, rfl⟩] at hcount
      cases hcount
    rw [hnone]
    rfl
  | ok i =>
    obtain ⟨n, hn, rfl⟩ := integer_eq_ok_iff.1 hcount
    rw [hn, Option.bind_some, ofUnit?]
    simp only [List.cons.injEq, and_true, Int.natCast_eq_zero, Int.toNat_natCast]
    split
    · rfl
    split
    · rfl
    split
    · rfl
    split <;> rfl

/-! ## Parsing -/

theorem parse_eq_ok_iff {s : String} {i : Interval} :
    parse s = .ok i ↔ Spells (Text.trim s.toList) i := by
  rw [← ofCode?_eq_some_iff, parse]
  cases ofCode? (Text.trim s.toList) with
  | none => simp
  | some j => simp

theorem toList_code (i : Interval) : i.code.toList = i.codeChars := String.toList_ofList

theorem injective_code : Function.Injective code := fun i j h =>
  codeChars_injective (by rw [← toList_code, h, toList_code])

/-- A code is digits and a unit. -/
theorem exists_codeChars (i : Interval) : ∃ count unit, i.codeChars = count ++ [unit] ∧
    count ≠ [] ∧ count.all Text.isDigit = true ∧ Text.isBlank unit = false := by
  cases i with
  | second n | minute n | hour n =>
    exact ⟨_, _, rfl, Text.digits_ne_nil _, Text.all_isDigit_digits _, by decide⟩
  | daily | weekly | monthly => exact ⟨['1'], _, rfl, by decide, by decide, by decide⟩

theorem trim_codeChars (i : Interval) : Text.trim i.codeChars = i.codeChars := by
  obtain ⟨count, unit, hcode, hne, hdigits, hunit⟩ := i.exists_codeChars
  obtain ⟨c, rest, rfl⟩ := List.exists_cons_of_ne_nil hne
  refine Text.trim_of_trims ⟨[], [], by simp, by simp, ?_, ?_⟩ <;> rw [hcode]
  · rintro d hd
    cases hd
    rw [List.all_cons, Bool.and_eq_true] at hdigits
    exact Text.isBlank_of_isDigit hdigits.1
  · rintro d hd
    rw [List.getLast?_concat] at hd
    cases hd
    exact hunit

/-- A text is a code if the text without the blanks around it spells an interval, and is read as
this interval. Any other text is refused, and the error holds it without the blanks. No text makes
reading fail at a byte. The code of the interval read is its one spelling without plus sign and
leading zeros. Every interval that has a length is read from its code, and different intervals have
different codes. -/
theorem codes_parsed :
    (∀ s : String, ∃ t, (∀ u, Text.Trims s.toList u ↔ u = t) ∧
      (∀ i, parse s = .ok i ↔ Spells t i) ∧
      ((∀ i, ¬Spells t i) → parse s = .error ⟨String.ofList t⟩) ∧
      parseAt? t = some (parse s) ∧
      ∀ i, parse s = .ok i → ∀ u, Spells u i ∧ Plain u ↔ u = i.code.toList) ∧
    (∀ i : Interval, i.Positive → parse i.code = .ok i) ∧
    Function.Injective code := by
  refine ⟨fun s => ⟨Text.trim s.toList, fun u => Text.trims_iff, fun i => parse_eq_ok_iff, ?_, ?_,
    ?_⟩, ?_, injective_code⟩
  · intro hnone
    have hcode : ofCode? (Text.trim s.toList) = none :=
      Option.eq_none_iff_forall_ne_some.2 fun i hi => hnone i (ofCode?_eq_some_iff.1 hi)
    rw [parse, hcode]
  · exact parseAt?_eq _
  · intro i hi u
    have hpositive := (parse_eq_ok_iff.1 hi).positive
    rw [spells_plain_iff, toList_code]
    exact ⟨fun h => h.2, fun h => ⟨hpositive, h⟩⟩
  · intro i hi
    rw [parse_eq_ok_iff, toList_code, trim_codeChars]
    exact spells_codeChars hi

/-- A code with a wide blank before it and a line end behind; a count of more than 32 bits in front
of a character of two bytes. -/
theorem codes_parsed_sloppy :
    let s := "\u2003+007h\n"
    let refused := " 4294967296é"
    parse s = .ok (.hour 7) ∧ (Interval.hour 7).code.toList = ['7', 'h'] ∧
      parse (Interval.hour 7).code = .ok (.hour 7) ∧
      parse refused = .error ⟨"4294967296é"⟩ := by
  intro s refused
  obtain ⟨t, htrims, hok, -, -, hcode⟩ := codes_parsed.1 s
  obtain ⟨u, hutrims, -, -, hat, -⟩ := codes_parsed.1 refused
  obtain rfl : ['+', '0', '0', '7', 'h'] = t := (htrims _).1 (Text.trims_iff.2 (by decide))
  obtain rfl : "4294967296é".toList = u := (hutrims _).1 (Text.trims_iff.2 (by decide))
  have hsigned : Counts ['+', '0', '0', '7'] 7 :=
    ⟨['0', '0', '7'], .inr rfl, by decide, List.all_eq_true.1 (by decide), by decide, by decide⟩
  have hplain : Counts ['7'] 7 :=
    ⟨['7'], .inl rfl, by decide, List.all_eq_true.1 (by decide), by decide, by decide⟩
  have hspells : Spells ['+', '0', '0', '7', 'h'] (.hour 7) := .hour hsigned
  have hparse := (hok _).2 hspells
  refine ⟨hparse, ((hcode _ hparse _).1 ⟨.hour hplain, by decide, by decide⟩).symm,
    codes_parsed.2.1 _ (show (7 : UInt32) ≠ 0 by decide), ?_⟩
  exact (Option.some.inj hat).symm.trans (by decide)

end Interval
end MarketFeed
