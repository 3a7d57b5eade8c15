import MarketFeed.Proofs.Json.Grammar
import MarketFeed.Proofs.Json.Meaning

/-!
# MarketFeed.Proofs.Json.Values

Values as documents.

* `Members.ofList_of_sorted`, `Members.mem_ofList` — sorted members stay as they are, and none are
  made up.
* `Tree.valueWithin?_tree` — the meaning of a document means itself.
* `Value.FloatFree`, `Value.Exact` — values without doubles, and with integers of 64 bits only.
* `fits_of_read?`, `Tree.Fits.exact` — what is read from a text has no other integers.
-/

namespace MarketFeed
namespace Json

/-! ## Members -/

namespace Members

theorem mem_ofList {l : List (String × Value)} {m : String × Value} (h : m ∈ ofList l) :
    m ∈ l := by
  have hfold : ∀ ms : Members, m ∈ l.foldl (fun ms m => insert m.1 m.2 ms) ms →
      m ∈ ms ∨ m ∈ l := by
    clear h
    induction l with
    | nil => exact fun ms h => .inl h
    | cons p l ih =>
      intro ms h
      rcases ih _ h with h | h
      · rcases mem_insert h with rfl | h
        · exact .inr List.mem_cons_self
        · exact .inl h
      · exact .inr (List.mem_cons_of_mem p h)
  exact (hfold [] h).resolve_left List.not_mem_nil

/-- A name behind all others goes to the end. -/
theorem insert_of_lt {n : String} {v : Value} {ms : Members} (h : ∀ m ∈ ms, m.1 < n) :
    insert n v ms = ms ++ [(n, v)] := by
  induction ms with
  | nil => rfl
  | cons m ms ih =>
    obtain ⟨hm, hms⟩ := List.forall_mem_cons.1 h
    have hne : n ≠ m.1 := by
      rintro rfl
      exact String.lt_irrefl _ hm
    rw [insert, if_neg (String.lt_asymm hm), if_neg hne, ih hms]
    rfl

/-- Sorted members stay as they are. -/
theorem ofList_of_sorted {ms : Members} (h : Sorted ms) : ofList ms = ms := by
  have hfold : ∀ (done rest : Members), Sorted (done ++ rest) →
      rest.foldl (fun ms m => insert m.1 m.2 ms) done = done ++ rest := by
    intro done rest
    induction rest generalizing done with
    | nil => intro _; simp
    | cons m rest ih =>
      intro hsorted
      have hbefore : ∀ p ∈ done, p.1 < m.1 := fun p hp =>
        (List.pairwise_append.1 hsorted).2.2 p hp m List.mem_cons_self
      rw [List.foldl_cons, insert_of_lt hbefore, ih, List.append_assoc]
      · rfl
      · simpa using hsorted
  exact hfold [] ms h

end Members

/-! ## The meaning of a meaning -/

/-- Each item of a meaning is the meaning of an item. -/
theorem exists_of_itemsWithin? {room : Nat} {items : List Tree} {vs : List Value}
    (h : itemsWithin? room items = some vs) :
    ∀ v ∈ vs, ∃ t ∈ items, t.valueWithin? room = some v := by
  induction items generalizing vs with
  | nil =>
    cases h
    exact nofun
  | cons t items ih =>
    unfold itemsWithin? at h
    split at h
    · next v vs ht hvs =>
      cases h
      refine List.forall_mem_cons.2 ⟨⟨t, List.mem_cons_self, ht⟩, fun w hw => ?_⟩
      obtain ⟨u, hu, hmeans⟩ := ih hvs w hw
      exact ⟨u, List.mem_cons_of_mem t hu, hmeans⟩
    · cases h

theorem exists_of_membersWithin? {room : Nat} {members : List (Option String × Tree)}
    {l : List (String × Value)} (h : membersWithin? room members = some l) :
    ∀ m ∈ l, ∃ p ∈ members, p.2.valueWithin? room = some m.2 := by
  induction members generalizing l with
  | nil =>
    cases h
    exact nofun
  | cons p members ih =>
    unfold membersWithin? at h
    split at h
    · next n v vs ht hvs =>
      cases h
      refine List.forall_mem_cons.2 ⟨⟨_, List.mem_cons_self, ht⟩, fun m hm => ?_⟩
      obtain ⟨q, hq, hmeans⟩ := ih hvs m hm
      exact ⟨q, List.mem_cons_of_mem _ hq, hmeans⟩
    · cases h

theorem itemsWithin?_treesOf {room : Nat} {vs : List Value}
    (h : ∀ v ∈ vs, v.tree.valueWithin? room = some v) :
    itemsWithin? room (treesOf vs) = some vs := by
  induction vs with
  | nil => rfl
  | cons v vs ih =>
    obtain ⟨hv, hvs⟩ := List.forall_mem_cons.1 h
    simp only [treesOf, itemsWithin?, hv, ih hvs]

theorem membersWithin?_memberTreesOf {room : Nat} {l : List (String × Value)}
    (h : ∀ m ∈ l, m.2.tree.valueWithin? room = some m.2) :
    membersWithin? room (memberTreesOf l) = some l := by
  induction l with
  | nil => rfl
  | cons m l ih =>
    obtain ⟨hm, hl⟩ := List.forall_mem_cons.1 h
    simp only [memberTreesOf, membersWithin?, hm, ih hl]

/-- The meaning of a document means itself. -/
theorem Tree.valueWithin?_tree {room : Nat} {t : Tree} {v : Value}
    (h : t.valueWithin? room = some v) : v.tree.valueWithin? room = some v := by
  induction t generalizing room v with
  | null | bool =>
    cases h
    rfl
  | number n =>
    obtain ⟨n, rfl, rfl⟩ := Option.map_eq_some_iff.1 h
    rfl
  | string s =>
    obtain ⟨s, rfl, rfl⟩ := Option.map_eq_some_iff.1 h
    rfl
  | array items ih =>
    cases room with
    | zero => cases h
    | succ room =>
      obtain ⟨vs, hvs, rfl⟩ := Option.map_eq_some_iff.1 h
      have hall : ∀ v ∈ vs, v.tree.valueWithin? room = some v := by
        intro v hv
        obtain ⟨t, ht, hmeans⟩ := exists_of_itemsWithin? hvs v hv
        exact ih t ht hmeans
      rw [Value.tree, valueWithin?, itemsWithin?_treesOf hall]
      rfl
  | object members ih =>
    cases room with
    | zero => cases h
    | succ room =>
      obtain ⟨l, hl, rfl⟩ := Option.map_eq_some_iff.1 h
      have hall : ∀ m ∈ Members.ofList l, m.2.tree.valueWithin? room = some m.2 := by
        intro m hm
        obtain ⟨p, hp, hmeans⟩ := exists_of_membersWithin? hl m (Members.mem_ofList hm)
        exact ih p hp hmeans
      rw [Value.record, Value.tree, valueWithin?, membersWithin?_memberTreesOf hall,
        Option.map_some, Value.record, Members.ofList_of_sorted (Members.sorted_ofList l)]

/-! ## Integers -/

/-- Integers of 64 bits, signed or unsigned. -/
def FitsWord (i : Int) : Prop := -9223372036854775808 ≤ i ∧ i < 18446744073709551616

namespace Value

/-- There is no double in a value. -/
inductive FloatFree : Value → Prop
  | null : FloatFree .null
  | bool (b : Bool) : FloatFree (.bool b)
  | int (i : Int) : FloatFree (.number (.int i))
  | string (s : String) : FloatFree (.string s)
  | array {items : List Value} (h : ∀ v ∈ items, FloatFree v) : FloatFree (.array items)
  | object {members : List (String × Value)} (h : ∀ m ∈ members, FloatFree m.2) :
      FloatFree (.object members)

/-- Every number in a value is an integer of 64 bits. -/
inductive Exact : Value → Prop
  | null : Exact .null
  | bool (b : Bool) : Exact (.bool b)
  | int {i : Int} (h : FitsWord i) : Exact (.number (.int i))
  | string (s : String) : Exact (.string s)
  | array {items : List Value} (h : ∀ v ∈ items, Exact v) : Exact (.array items)
  | object {members : List (String × Value)} (h : ∀ m ∈ members, Exact m.2) :
      Exact (.object members)

end Value

/-- Every integer in a document is one of 64 bits. -/
inductive Tree.Fits : Tree → Prop
  | null : Fits .null
  | bool (b : Bool) : Fits (.bool b)
  | number {n : Option Num} (h : ∀ i, n = some (.int i) → FitsWord i) : Fits (.number n)
  | string (s : Option String) : Fits (.string s)
  | array {items : List Tree} (h : ∀ t ∈ items, Fits t) : Fits (.array items)
  | object {members : List (Option String × Tree)} (h : ∀ m ∈ members, Fits m.2) :
      Fits (.object members)

theorem Literal.fits_of_num? {l : Literal} {i : Int} (h : l.num? = some (.int i)) : FitsWord i := by
  unfold num? at h
  dsimp only at h
  split at h
  · next hwhole =>
    cases h
    have hlt := hwhole.2.2
    exact ⟨by omega, by omega⟩
  split at h
  · next hwhole =>
    cases h
    have hle := hwhole.2.2.2
    exact ⟨by omega, by omega⟩
  · obtain ⟨f, -, heq⟩ := Option.map_eq_some_iff.1 h
    cases heq

theorem fits_of_wordSays {w : List Char} {t : Tree} (h : WordSays w t) : t.Fits := by
  cases h with
  | null => exact .null
  | true => exact .bool _
  | false => exact .bool _
  | number h => exact .number fun i => Literal.fits_of_num?

/-- A part of a document has no other integers. -/
def Part.Fits (p : Part) : Prop :=
  match p with
  | .value t => t.Fits
  | .items ts => ∀ t ∈ ts, t.Fits
  | .members ms => ∀ m ∈ ms, m.2.Fits

theorem fits_of_derives {ts : List Token} {p : Part} (h : Derives ts p) : p.Fits := by
  induction h with
  | word h => exact fits_of_wordSays h
  | string s => exact Tree.Fits.string s
  | emptyArray => exact Tree.Fits.array nofun
  | array _ ih => exact Tree.Fits.array ih
  | emptyObject => exact Tree.Fits.object nofun
  | object _ ih => exact Tree.Fits.object ih
  | item _ ih | member _ _ ih => simpa [Part.Fits] using ih
  | moreItems _ _ ih ihs | moreMembers _ _ _ ih ihs =>
    have both := And.intro ih ihs
    simpa [Part.Fits] using both

theorem fits_of_read? {text : List Char} {t : Tree} (h : read? text = some t) : t.Fits := by
  obtain ⟨ts, -, hderives⟩ := read?_eq_some_iff.1 h
  exact fits_of_derives hderives

/-- What such a document means has no other numbers, unless it has doubles. -/
theorem Tree.Fits.exact {t : Tree} (h : t.Fits) {room : Nat} {v : Value}
    (hv : t.valueWithin? room = some v) (hfree : v.FloatFree) : v.Exact := by
  induction t generalizing room v with
  | null =>
    cases hv
    exact .null
  | bool b =>
    cases hv
    exact .bool b
  | number n =>
    obtain ⟨n, rfl, rfl⟩ := Option.map_eq_some_iff.1 hv
    cases hfree
    cases h with | number h =>
    exact .int (h _ rfl)
  | string s =>
    obtain ⟨s, rfl, rfl⟩ := Option.map_eq_some_iff.1 hv
    exact .string s
  | array items ih =>
    cases room with
    | zero => cases hv
    | succ room =>
      obtain ⟨vs, hvs, rfl⟩ := Option.map_eq_some_iff.1 hv
      cases h with | array h =>
      cases hfree with | array hfree =>
      refine .array fun v hmem => ?_
      obtain ⟨t, ht, hmeans⟩ := exists_of_itemsWithin? hvs v hmem
      exact ih t ht (h t ht) hmeans (hfree v hmem)
  | object members ih =>
    cases room with
    | zero => cases hv
    | succ room =>
      obtain ⟨l, hl, rfl⟩ := Option.map_eq_some_iff.1 hv
      cases h with | object h =>
      cases hfree with | object hfree =>
      refine .object fun m hmem => ?_
      obtain ⟨p, hp, hmeans⟩ := exists_of_membersWithin? hl m (Members.mem_ofList hmem)
      exact ih p hp (h p hp) hmeans (hfree m hmem)

end Json
end MarketFeed
