import MarketFeed.Json.Reader
import MarketFeed.Proofs.Text.Digits

/-!
# MarketFeed.Proofs.Json.Literals

The words of JSON: three names and the number literals.

* `Literal.Spells`, `WordSays` — what they consist of.
* `wordTree?_eq_some_iff` — these words and no others are read.
-/

namespace MarketFeed
namespace Json

/-! ## Number literals -/

/-- Digits, without leading zeros. -/
def IsWhole (ds : List Char) : Prop :=
  ds ≠ [] ∧ ds.all Text.isDigit = true ∧ (ds.length = 1 ∨ ds.head? ≠ some '0')

/-- Nothing, or a point and digits. -/
inductive SpellsFraction : List Char → List Char → Prop
  | absent : SpellsFraction [] []
  | present {ds : List Char} (hne : ds ≠ []) (hds : ds.all Text.isDigit = true) :
      SpellsFraction ds ('.' :: ds)

/-- The sign of an exponent; a plus sign may be left out. -/
inductive SpellsSign : Bool → List Char → Prop
  | minus : SpellsSign true ['-']
  | plus : SpellsSign false ['+']
  | none : SpellsSign false []

/-- Nothing, or a letter, a sign and digits. -/
inductive SpellsExponent : Option (Bool × List Char) → List Char → Prop
  | absent : SpellsExponent none []
  | present {mark : Char} {negative : Bool} {sign ds : List Char} (hmark : mark = 'e' ∨ mark = 'E')
      (hsign : SpellsSign negative sign) (hne : ds ≠ []) (hds : ds.all Text.isDigit = true) :
      SpellsExponent (some (negative, ds)) (mark :: (sign ++ ds))

namespace Literal

/-- A word is the literal without its minus sign. -/
def SpellsUnsigned (l : Literal) (word : List Char) : Prop :=
  ∃ fraction exponent, word = l.whole ++ (fraction ++ exponent) ∧ IsWhole l.whole ∧
    SpellsFraction l.fraction fraction ∧ SpellsExponent l.exponent exponent

/-- A word is the literal. -/
inductive Spells (l : Literal) : List Char → Prop
  | negative {word : List Char} (hneg : l.negative = true) (h : l.SpellsUnsigned word) :
      Spells l ('-' :: word)
  | positive {word : List Char} (hneg : l.negative = false) (h : l.SpellsUnsigned word) :
      Spells l word

end Literal

theorem readExponent?_cons {mark : Char} {negative : Bool} {sign ds : List Char}
    (hmark : mark = 'e' ∨ mark = 'E') (hsign : SpellsSign negative sign) (hne : ds ≠ [])
    (hds : ds.all Text.isDigit = true) :
    readExponent? (mark :: (sign ++ ds)) = some (some (negative, ds)) := by
  unfold readExponent?
  dsimp only
  rw [if_pos hmark]
  cases hsign with
  | minus | plus => exact if_pos ⟨hne, hds⟩
  | none =>
    obtain ⟨d, rest, rfl⟩ := List.exists_cons_of_ne_nil hne
    -- A sign is no digit.
    split
    · next heq => cases heq; simp [Text.isDigit] at hds
    · next heq => cases heq; simp [Text.isDigit] at hds
    · exact if_pos ⟨hne, hds⟩

theorem readExponent?_eq_some_iff {cs : List Char} {e : Option (Bool × List Char)} :
    readExponent? cs = some e ↔ SpellsExponent e cs := by
  constructor
  · intro h
    unfold readExponent? at h
    split at h
    · cases h
      exact .absent
    · next mark rest =>
      split at h
      · next hmark =>
        split at h
        next negative ds hsign =>
          split at h
          · next hds =>
            cases h
            split at hsign
            · cases hsign
              exact .present hmark .minus hds.1 hds.2
            · cases hsign
              exact .present hmark .plus hds.1 hds.2
            · cases hsign
              exact .present hmark .none hds.1 hds.2
          · cases h
      · cases h
  · rintro (_ | ⟨hmark, hsign, hne, hds⟩)
    · rfl
    · exact readExponent?_cons hmark hsign hne hds

/-- The fraction at the start of a text, and the rest. -/
def readFraction? : List Char → Option (List Char × List Char)
  | '.' :: cs => if (spanDigits cs).1 = [] then none else some (spanDigits cs)
  | cs => some ([], cs)

namespace Literal

/-- A literal without its minus sign. -/
def readUnsigned? (negative : Bool) (cs : List Char) : Option Literal :=
  if (spanDigits cs).1 = [] ∨
      ((spanDigits cs).1.length ≠ 1 ∧ (spanDigits cs).1.head? = some '0') then none
  else
    (readFraction? (spanDigits cs).2).bind fun p =>
      (readExponent? p.2).bind fun exponent => some ⟨negative, (spanDigits cs).1, p.1, exponent⟩

theorem bind_readFraction? {β : Type} (rest : List Char)
    (f : List Char × List Char → Option β) :
    (readFraction? rest).bind f =
      match rest with
      | '.' :: cs =>
        if (spanDigits cs).1 = [] then none >>= f
        else some ((spanDigits cs).1, (spanDigits cs).2) >>= f
      | cs => some ([], cs) >>= f := by
  unfold readFraction?
  split
  · split <;> rfl
  · rfl

theorem read?_minus (cs : List Char) : read? ('-' :: cs) = readUnsigned? true cs := by
  simp only [read?, readUnsigned?, bind_readFraction?]
  rfl

theorem read?_of_ne_minus {word : List Char} (h : ∀ cs, word ≠ '-' :: cs) :
    read? word = readUnsigned? false word := by
  unfold read?
  dsimp only
  split
  · next cs => exact absurd rfl (h cs)
  · simp only [readUnsigned?, bind_readFraction?]
    rfl

end Literal

/-- An exponent starts with a letter. -/
theorem SpellsExponent.head? {e : Option (Bool × List Char)} {cs : List Char}
    (h : SpellsExponent e cs) : ∀ c ∈ cs.head?, Text.isDigit c = false ∧ c ≠ '.' := by
  rintro c hc
  cases h with
  | absent => cases hc
  | present hmark _ _ _ =>
    cases hc
    rcases hmark with rfl | rfl <;> decide

theorem SpellsFraction.head?_append {ds fraction exponent : List Char}
    {e : Option (Bool × List Char)} (h : SpellsFraction ds fraction)
    (hexponent : SpellsExponent e exponent) :
    ∀ c ∈ (fraction ++ exponent).head?, Text.isDigit c = false := by
  cases h with
  | absent => exact fun c hc => (hexponent.head? c hc).1
  | present _ _ =>
    rintro c hc
    cases hc
    decide

theorem readFraction?_append {fraction text rest : List Char} (h : SpellsFraction fraction text)
    (hrest : ∀ c ∈ rest.head?, Text.isDigit c = false ∧ c ≠ '.') :
    readFraction? (text ++ rest) = some (fraction, rest) := by
  cases h with
  | absent =>
    rw [List.nil_append]
    unfold readFraction?
    split
    · exact absurd rfl (hrest '.' rfl).2
    · rfl
  | present hne hds =>
    have hhead := fun c hc => (hrest c hc).1
    rw [List.cons_append, readFraction?, spanDigits, Text.takeWhile_isDigit_append hds hhead,
      Text.dropWhile_isDigit_append hds hhead, if_neg hne]

theorem spellsFraction_of_readFraction? {cs fraction rest : List Char}
    (h : readFraction? cs = some (fraction, rest)) :
    ∃ text, cs = text ++ rest ∧ SpellsFraction fraction text := by
  unfold readFraction? at h
  split at h
  · next cs =>
    split at h
    · cases h
    · next hne =>
      cases h
      exact ⟨_, (congrArg _ List.takeWhile_append_dropWhile).symm, .present hne List.all_takeWhile⟩
  · cases h
    exact ⟨[], rfl, .absent⟩

namespace Literal

theorem readUnsigned?_eq_some_iff {negative : Bool} {cs : List Char} {l : Literal} :
    readUnsigned? negative cs = some l ↔ l.negative = negative ∧ l.SpellsUnsigned cs := by
  constructor
  · intro h
    unfold readUnsigned? at h
    split at h
    · cases h
    · next hwhole =>
      obtain ⟨⟨fraction, rest⟩, hfraction, hrest⟩ := Option.bind_eq_some_iff.1 h
      obtain ⟨exponent, hexponent, hl⟩ := Option.bind_eq_some_iff.1 hrest
      cases hl
      obtain ⟨text, htext, hspells⟩ := spellsFraction_of_readFraction? hfraction
      refine ⟨rfl, text, rest, ?_, ⟨fun hnil => hwhole (.inl hnil), List.all_takeWhile, ?_⟩,
        hspells, readExponent?_eq_some_iff.1 hexponent⟩
      · rw [← htext]
        exact List.takeWhile_append_dropWhile.symm
      · by_cases hlength : (spanDigits cs).1.length = 1
        · exact .inl hlength
        · exact .inr fun hzero => hwhole (.inr ⟨hlength, hzero⟩)
  · rintro ⟨rfl, fraction, exponent, rfl, ⟨hne, hds, hzero⟩, hfraction, hexponent⟩
    have hhead := hfraction.head?_append hexponent
    have hwhole : ¬(l.whole = [] ∨ (l.whole.length ≠ 1 ∧ l.whole.head? = some '0')) := by
      rintro (hnil | ⟨hlength, hfirst⟩)
      · exact hne hnil
      · exact hzero.elim hlength fun h => h hfirst
    rw [readUnsigned?, spanDigits, Text.takeWhile_isDigit_append hds hhead,
      Text.dropWhile_isDigit_append hds hhead, if_neg hwhole,
      readFraction?_append hfraction hexponent.head?, Option.bind_some,
      readExponent?_eq_some_iff.2 hexponent]
    rfl

theorem SpellsUnsigned.ne_minus {l : Literal} {word : List Char} (h : l.SpellsUnsigned word) :
    ∀ cs, word ≠ '-' :: cs := by
  obtain ⟨fraction, exponent, rfl, ⟨hne, hds, -⟩, -, -⟩ := h
  obtain ⟨d, ds, hwhole⟩ := List.exists_cons_of_ne_nil hne
  rintro cs hcs
  rw [hwhole] at hcs hds
  cases hcs
  simp [Text.isDigit] at hds

theorem read?_eq_some_iff {word : List Char} {l : Literal} :
    read? word = some l ↔ l.Spells word := by
  constructor
  · intro h
    by_cases hminus : ∀ cs, word ≠ '-' :: cs
    · rw [read?_of_ne_minus hminus, readUnsigned?_eq_some_iff] at h
      exact .positive h.1 h.2
    · obtain ⟨cs, hcs⟩ := not_forall.1 hminus
      obtain rfl := Decidable.not_not.1 hcs
      rw [read?_minus, readUnsigned?_eq_some_iff] at h
      exact .negative h.1 h.2
  · rintro (⟨hneg, h⟩ | ⟨hneg, h⟩)
    · rw [read?_minus, readUnsigned?_eq_some_iff]
      exact ⟨hneg, h⟩
    · rw [read?_of_ne_minus h.ne_minus, readUnsigned?_eq_some_iff]
      exact ⟨hneg, h⟩

end Literal

/-! ## Words -/

/-- What a word says: one of the three names, or a number. -/
inductive WordSays : List Char → Tree → Prop
  | null : WordSays ['n', 'u', 'l', 'l'] .null
  | true : WordSays ['t', 'r', 'u', 'e'] (.bool true)
  | false : WordSays ['f', 'a', 'l', 's', 'e'] (.bool false)
  | number {l : Literal} {word : List Char} (h : l.Spells word) : WordSays word (.number l.num?)

theorem read?_cons_of_letter {c : Char} {cs : List Char} (h : c ≠ '-')
    (hc : Text.isDigit c = false) :
    Literal.read? (c :: cs) = none := by
  have hspan : (spanDigits (c :: cs)).1 = [] := by
    rw [spanDigits, List.takeWhile_cons, hc, if_neg Bool.false_ne_true]
  rw [Literal.read?_of_ne_minus fun _ hcs => h (List.cons.inj hcs).1, Literal.readUnsigned?, hspan]
  exact if_pos (.inl rfl)

theorem wordTree?_eq_some_iff {word : List Char} {t : Tree} :
    wordTree? word = some t ↔ WordSays word t := by
  constructor
  · intro h
    rw [wordTree?] at h
    split at h
    · next hword => subst hword; cases h; exact .null
    split at h
    · next hword => subst hword; cases h; exact .true
    split at h
    · next hword => subst hword; cases h; exact .false
    obtain ⟨l, hl, rfl⟩ := Option.map_eq_some_iff.1 h
    exact .number (Literal.read?_eq_some_iff.1 hl)
  · rintro (_ | _ | _ | ⟨h⟩)
    · rfl
    · rfl
    · rfl
    · have hl := Literal.read?_eq_some_iff.2 h
      have hname : ∀ c cs, word = c :: cs → c ≠ '-' → Text.isDigit c = Bool.false → False := by
        rintro c cs rfl hne hc
        rw [read?_cons_of_letter hne hc] at hl
        cases hl
      rw [wordTree?, if_neg fun h => hname _ _ h (by decide) (by decide),
        if_neg fun h => hname _ _ h (by decide) (by decide),
        if_neg fun h => hname _ _ h (by decide) (by decide), hl]
      rfl

end Json
end MarketFeed
