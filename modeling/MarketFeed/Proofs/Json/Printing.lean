import MarketFeed.Json.Printer
import MarketFeed.Proofs.Json.Values

/-!
# MarketFeed.Proofs.Json.Printing

A value is read back from its text.

* `stringSays_escapeChar` — an escaped character says what it was.
* `wordSays_signedDigits` — an integer of 64 bits is spelled by its digits.
* `Prints` — a text is some tokens in front of anything that does not carry on a word.
* `Value.Exact.printed` — the text of a value derives it, by induction on the value.
* `Value.Exact.read?_text` — what was printed is read as what it was.
-/

namespace MarketFeed
namespace Json

/-! ## Strings -/

theorem hex4?_hexDigit : ∀ n, n < 0x20 →
    hex4? '0' '0' (hexDigit (n / 16)) (hexDigit (n % 16)) = some n := by decide

/-- The escape of a character says it, and nothing else about what stands behind. -/
theorem stringSays_escapeChar (c : Char) {cs : List Char} {s : Option (List Char)}
    (h : StringSays cs s) : StringSays (escapeChar c ++ cs) (s.map (c :: ·)) := by
  have hchar : ∀ n, c.toNat = n → c = Char.ofNat n := fun n hn => hn ▸ c.ofNat_toNat.symm
  unfold escapeChar
  dsimp only
  split
  · next hc => subst hc; exact .escape rfl h
  next hquote =>
  split
  · next hc => subst hc; exact .escape rfl h
  next hslash =>
  split
  · next hn => rw [hchar 8 hn]; exact .escape rfl h
  split
  · next hn => rw [hchar 9 hn]; exact .escape rfl h
  split
  · next hn => rw [hchar 10 hn]; exact .escape rfl h
  split
  · next hn => rw [hchar 12 hn]; exact .escape rfl h
  split
  · next hn => rw [hchar 13 hn]; exact .escape rfl h
  split
  · next hcontrol =>
    have hhigh : isHighSurrogate c.toNat = false := by simp [isHighSurrogate]; omega
    have hlow : isLowSurrogate c.toNat = false := by simp [isLowSurrogate]; omega
    have hunit := StringSays.unit (hex4?_hexDigit c.toNat hcontrol) hhigh hlow h
    rwa [Char.ofNat_toNat] at hunit
  · next hcontrol => exact .plain hquote hslash (Nat.le_of_not_lt hcontrol) h

theorem stringSays_flatMap (cs : List Char) : StringSays (cs.flatMap escapeChar) (some cs) := by
  induction cs with
  | nil => exact .nil
  | cons c cs ih => exact stringSays_escapeChar c ih

/-! ## Integers -/

theorem isWhole_digits (n : Nat) : IsWhole (Text.digits n) := by
  refine ⟨Text.digits_ne_nil n, Text.all_isDigit_digits n, ?_⟩
  rcases Nat.eq_zero_or_pos n with rfl | hpos
  · exact .inl (by rw [Text.digits]; rfl)
  · exact .inr (Text.head?_digits hpos)

/-- The literal of an integer. -/
def Literal.ofInt (i : Int) : Literal := ⟨i < 0, Text.digits i.natAbs, [], none⟩

theorem Literal.spells_signedDigits (i : Int) : (ofInt i).Spells (Text.signedDigits i) := by
  have hunsigned : (ofInt i).SpellsUnsigned (Text.digits i.natAbs) :=
    ⟨[], [], (List.append_nil _).symm, isWhole_digits _, .absent, .absent⟩
  rw [Text.signedDigits]
  split
  · next hneg => exact .negative (decide_eq_true hneg) hunsigned
  · next hneg => exact .positive (decide_eq_false hneg) hunsigned

theorem Literal.num?_ofInt {i : Int} (h : FitsWord i) : (ofInt i).num? = some (.int i) := by
  obtain ⟨hlow, hhigh⟩ := h
  simp only [num?, ofInt, Text.number_digits, and_self, true_and]
  by_cases hneg : i < 0
  · rw [if_neg (by simp [hneg]), if_pos ⟨decide_eq_true hneg, by omega, by omega⟩]
    congr
    omega
  · rw [if_pos ⟨decide_eq_false hneg, by omega⟩]
    congr
    omega

theorem wordSays_signedDigits {i : Int} (h : FitsWord i) :
    WordSays (Text.signedDigits i) (.number (some (.int i))) := by
  rw [← Literal.num?_ofInt h]
  exact .number (Literal.spells_signedDigits i)

theorem isWordChar_of_isDigit {c : Char} (h : Text.isDigit c = true) : isWordChar c = true := by
  rw [Text.isDigit_eq] at h
  simp [isWordChar, Char.isAlphanum, h]

theorem all_isWordChar_signedDigits (i : Int) :
    (Text.signedDigits i).all isWordChar = true := by
  have hdigits : (Text.digits i.natAbs).all isWordChar = true :=
    List.all_eq_true.2 fun c hc =>
      isWordChar_of_isDigit (List.all_eq_true.1 (Text.all_isDigit_digits _) c hc)
  rw [Text.signedDigits]
  split <;> exact hdigits

theorem signedDigits_ne_nil (i : Int) : Text.signedDigits i ≠ [] := by
  rw [Text.signedDigits]
  split
  · exact List.cons_ne_nil _ _
  · exact Text.digits_ne_nil _

/-! ## Tokens -/

/-- In front of anything that does not carry on a word, a text is some tokens. -/
def Prints (text : List Char) (ts : List Token) : Prop :=
  ∀ rest us, EndsWord rest → Lexes rest us → Lexes (text ++ rest) (ts ++ us)

theorem endsWord_of_mark {c : Char} {t : Token} (hc : punctuation? c = some t)
    (cs : List Char) : EndsWord (c :: cs) := fun _ hd =>
  Option.some.inj hd ▸ (punctuation?_eq_some hc).2.2

namespace Prints

variable {c : Char} {t : Token} {a b : List Char} {ts us : List Token}

theorem nil : Prints [] [] := fun _ _ _ h => h

theorem mark_cons (hc : punctuation? c = some t) (h : Prints a ts) :
    Prints (c :: a) (t :: ts) := fun rest us hrest hus => .mark hc (h rest us hrest hus)

/-- A mark ends the word before it. -/
theorem append_mark (ha : Prints a ts) (hc : punctuation? c = some t) (hb : Prints b us) :
    Prints (a ++ c :: b) (ts ++ t :: us) := by
  intro rest vs hrest hvs
  rw [List.append_assoc, List.append_assoc]
  exact ha _ _ (endsWord_of_mark hc _) (.mark hc (hb rest vs hrest hvs))

theorem word (hne : a ≠ []) (ha : ∀ c ∈ a, isWordChar c = true) : Prints a [.word a] :=
  fun _ _ hrest h => .word hne ha hrest h

theorem string (s : String) : Prints (stringText s) [.string (some s)] := by
  intro rest us _ hus
  have hlexes := Lexes.string (stringSays_flatMap s.toList) hus
  rw [Option.map_some, String.ofList_toList] at hlexes
  rw [stringText, List.cons_append, List.append_assoc]
  exact hlexes

theorem lexes (h : Prints a ts) : Lexes a ts := by
  have hlexes := h [] [] nofun .nil
  rwa [List.append_nil, List.append_nil] at hlexes

end Prints

/-! ## Values -/

/-- The text of a value derives it. -/
def Value.Printed (v : Value) : Prop := ∃ ts, Derives ts (.value v.tree) ∧ Prints v.text ts

theorem printed_word {v : Value} (htree : WordSays v.text v.tree) (hne : v.text ≠ [])
    (hw : v.text.all isWordChar = true) : v.Printed :=
  ⟨[.word v.text], .word htree, .word hne (List.all_eq_true.1 hw)⟩

/-- The items of an array without its brackets. -/
theorem prints_items {v : Value} {rest : List Value} (hv : v.Printed)
    (hrest : ∀ w ∈ rest, w.Printed) : ∃ ts, Derives ts (.items (treesOf (v :: rest))) ∧
      Prints (v.text ++ itemsText rest) ts := by
  obtain ⟨ts, hts, hprints⟩ := hv
  induction rest generalizing v ts with
  | nil =>
    refine ⟨ts, .item hts, ?_⟩
    rwa [itemsText, List.append_nil]
  | cons w rest ih =>
    obtain ⟨⟨us, hus, hw⟩, hrest⟩ := List.forall_mem_cons.1 hrest
    obtain ⟨us, hus, hmore⟩ := ih hrest us hus hw
    exact ⟨_, .moreItems hts hus, hprints.append_mark rfl hmore⟩

/-- The members of an object without its braces. -/
theorem prints_members {n : String} {v : Value} {rest : List (String × Value)} (hv : v.Printed)
    (hrest : ∀ m ∈ rest, m.2.Printed) :
    ∃ ts, Derives ts (.members (memberTreesOf ((n, v) :: rest))) ∧
      Prints (stringText n ++ ':' :: (v.text ++ membersText rest)) ts := by
  obtain ⟨ts, hts, hprints⟩ := hv
  induction rest generalizing n v ts with
  | nil =>
    refine ⟨_, .member (some n) hts, ?_⟩
    rw [membersText, List.append_nil]
    exact (Prints.string n).append_mark rfl hprints
  | cons m rest ih =>
    obtain ⟨k, w⟩ := m
    obtain ⟨⟨us, hus, hw⟩, hrest⟩ := List.forall_mem_cons.1 hrest
    obtain ⟨us, hus, hmore⟩ := ih (n := k) hrest us hus hw
    exact ⟨_, .moreMembers (some n) hts hus,
      (Prints.string n).append_mark rfl (hprints.append_mark rfl hmore)⟩

theorem Value.Exact.printed {v : Value} (h : v.Exact) : v.Printed := by
  induction h with
  | null => exact printed_word .null (List.cons_ne_nil _ _) rfl
  | bool b =>
    cases b with
    | true => exact printed_word .true (List.cons_ne_nil _ _) rfl
    | false => exact printed_word .false (List.cons_ne_nil _ _) rfl
  | @int i h =>
    exact printed_word (wordSays_signedDigits h) (signedDigits_ne_nil i)
      (all_isWordChar_signedDigits i)
  | string s => exact ⟨_, .string (some s), .string s⟩
  | @array items _ ih =>
    cases items with
    | nil => exact ⟨_, .emptyArray, .mark_cons rfl (.mark_cons rfl .nil)⟩
    | cons v rest =>
      obtain ⟨hv, hrest⟩ := List.forall_mem_cons.1 ih
      obtain ⟨ts, hts, hprints⟩ := prints_items hv hrest
      refine ⟨_, .array hts, ?_⟩
      rw [text, ← List.append_assoc]
      exact .mark_cons rfl (hprints.append_mark rfl Prints.nil)
  | @object members _ ih =>
    cases members with
    | nil => exact ⟨_, .emptyObject, .mark_cons rfl (.mark_cons rfl .nil)⟩
    | cons m rest =>
      obtain ⟨hv, hrest⟩ := List.forall_mem_cons.1 ih
      obtain ⟨ts, hts, hprints⟩ := prints_members hv hrest
      refine ⟨_, .object hts, ?_⟩
      have hclosed := hprints.append_mark (c := Char.ofNat 0x7D) rfl Prints.nil
      rw [List.append_assoc, List.cons_append, List.append_assoc] at hclosed
      exact .mark_cons rfl hclosed

/-- What was printed is read as what it was. -/
theorem Value.Exact.read?_text {v : Value} (h : v.Exact) : read? v.text = some v.tree := by
  obtain ⟨ts, hts, hprints⟩ := h.printed
  exact read?_eq_some_iff.2 ⟨ts, hprints.lexes, hts⟩

end Json
end MarketFeed
