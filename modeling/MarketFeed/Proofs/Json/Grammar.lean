import MarketFeed.Proofs.Json.Lexing
import MarketFeed.Proofs.Json.Literals

/-!
# MarketFeed.Proofs.Json.Grammar

The documents of texts.

* `Derives` — the grammar of documents, over tokens.
* `Builder.takes_of_derives`, `Builder.finds` — the builder follows it in both directions.
* `IsText`, `read?_eq_some_iff` — the texts of a document are those that are read as it.
-/

namespace MarketFeed
namespace Json

/-- What some tokens may be together: a document, the items of an array without its brackets, or
the members of an object without its braces; of the latter two at least one. -/
inductive Part where
  | value (t : Tree)
  | items (items : List Tree)
  | members (members : List (Option String × Tree))

inductive Derives : List Token → Part → Prop
  | word {w : List Char} {t : Tree} (h : WordSays w t) : Derives [.word w] (.value t)
  | string (s : Option String) : Derives [.string s] (.value (.string s))
  | emptyArray : Derives [.beginArray, .endArray] (.value (.array []))
  | array {ts : List Token} {items : List Tree} (h : Derives ts (.items items)) :
      Derives (.beginArray :: (ts ++ [.endArray])) (.value (.array items))
  | emptyObject : Derives [.beginObject, .endObject] (.value (.object []))
  | object {ts : List Token} {members : List (Option String × Tree)}
      (h : Derives ts (.members members)) :
      Derives (.beginObject :: (ts ++ [.endObject])) (.value (.object members))
  | item {ts : List Token} {t : Tree} (h : Derives ts (.value t)) : Derives ts (.items [t])
  | moreItems {ts us : List Token} {t : Tree} {items : List Tree} (h : Derives ts (.value t))
      (hs : Derives us (.items items)) : Derives (ts ++ .comma :: us) (.items (t :: items))
  | member {ts : List Token} (name : Option String) {t : Tree} (h : Derives ts (.value t)) :
      Derives (.string name :: .colon :: ts) (.members [(name, t)])
  | moreMembers {ts us : List Token} (name : Option String) {t : Tree}
      {members : List (Option String × Tree)} (h : Derives ts (.value t))
      (hs : Derives us (.members members)) :
      Derives (.string name :: .colon :: (ts ++ .comma :: us)) (.members ((name, t) :: members))

/-- A text of a document. -/
def IsText (text : List Char) (t : Tree) : Prop :=
  ∃ ts, Lexes text ts ∧ Derives ts (.value t)

namespace Builder

variable {O : List Open} {ts : List Token} {doc : Tree}

/-- The document that the builder makes of the rest of the tokens. -/
def run (b : Builder) (ts : List Token) : Option Tree := (ts.foldlM step b).bind (·.result)

theorem run_cons (b : Builder) (t : Token) (ts : List Token) :
    run b (t :: ts) = (step b t).bind fun b => run b ts := by
  simp only [run, List.foldlM_cons, Option.bind_eq_bind, Option.bind_assoc]

theorem run_of_step {b b' : Builder} {t : Token} (h : step b t = some b') (ts : List Token) :
    run b (t :: ts) = run b' ts := by
  rw [run_cons, h, Option.bind_some]

/-! ## From the grammar to the builder -/

/-- What the builder makes of a part in front of other tokens, in a place where the part may stand:
it goes on as behind the part. -/
def Takes (ts : List Token) : Part → Prop
  | .value t => ∀ O rest, run ⟨O, .item, none⟩ (ts ++ rest) = run (put O t) rest
  | .items items => ∀ acc O rest, run ⟨.array acc :: O, .item, none⟩ (ts ++ .endArray :: rest) =
      run (put O (.array (acc.reverse ++ items))) rest
  | .members members => ∀ acc O rest,
      run ⟨.object acc :: O, .name, none⟩ (ts ++ .endObject :: rest) =
        run (put O (.object (acc.reverse ++ members))) rest

/-- An array that was just opened takes a first value as any other. -/
theorem run_firstItem (h : ∀ us, ts ≠ .endArray :: us) :
    run ⟨O, .firstItem, none⟩ ts = run ⟨O, .item, none⟩ ts := by
  cases ts with
  | nil => rfl
  | cons t ts =>
    have hne : t ≠ .endArray := fun heq => h ts (by rw [heq])
    have hstep : step ⟨O, .firstItem, none⟩ t = step ⟨O, .item, none⟩ t := if_neg hne
    rw [run_cons, run_cons, hstep]

theorem run_firstName (h : ∀ us, ts ≠ .endObject :: us) :
    run ⟨O, .firstName, none⟩ ts = run ⟨O, .name, none⟩ ts := by
  cases ts with
  | nil => rfl
  | cons t ts =>
    have hne : t ≠ .endObject := fun heq => h ts (by rw [heq])
    have hstep : step ⟨O, .firstName, none⟩ t = step ⟨O, .name, none⟩ t := if_neg hne
    rw [run_cons, run_cons, hstep]

/-- A part begins with none of the closing tokens. -/
theorem begins_of_derives {p : Part} (h : Derives ts p) (us rest : List Token) :
    ts ++ us ≠ .endArray :: rest ∧ ts ++ us ≠ .endObject :: rest := by
  induction h generalizing us with
  | item _ ih => exact ih us
  | moreItems _ _ ih _ =>
    rw [List.append_assoc]
    exact ih _
  | _ => exact ⟨nofun, nofun⟩

theorem takes_of_derives {p : Part} (h : Derives ts p) : Takes ts p := by
  induction h with
  | word h =>
    intro O rest
    exact run_of_step (by simp only [step, value?, wordTree?_eq_some_iff.2 h, Option.map_some]) rest
  | string s => exact fun O rest => rfl
  | emptyArray => exact fun O rest => rfl
  | emptyObject => exact fun O rest => rfl
  | array h ih =>
    intro O rest
    have hopen := run_of_step (b := ⟨O, .item, none⟩) (t := .beginArray) rfl
    rw [List.cons_append, hopen, List.append_assoc,
      run_firstItem fun us => (begins_of_derives h _ us).1]
    exact ih [] O rest
  | object h ih =>
    intro O rest
    have hopen := run_of_step (b := ⟨O, .item, none⟩) (t := .beginObject) rfl
    rw [List.cons_append, hopen, List.append_assoc,
      run_firstName fun us => (begins_of_derives h _ us).2]
    exact ih [] O rest
  | item _ ih =>
    intro acc O rest
    rw [ih]
    exact congrArg (fun l => run (put O (.array l)) rest) (List.reverse_cons ..)
  | moreItems _ _ ih ihs =>
    intro acc O rest
    rw [List.append_assoc, ih]
    refine (ihs (_ :: acc) O rest).trans ?_
    rw [reverse_cons_append]
  | member name _ ih =>
    intro acc O rest
    refine (ih (.member acc name :: O) _).trans ?_
    exact congrArg (fun l => run (put O (.object l)) rest) (List.reverse_cons ..)
  | moreMembers name _ _ ih ihs =>
    intro acc O rest
    rw [List.cons_append, List.cons_append, List.append_assoc]
    refine (ih (.member acc name :: O) _).trans ((ihs ((name, _) :: acc) O rest).trans ?_)
    rw [reverse_cons_append]

/-! ## From the builder to the grammar -/

/-- The builder, run to a document where a value is due, begins with the tokens of a value. -/
def FindsValue (ts : List Token) : Prop :=
  ∀ O doc, run ⟨O, .item, none⟩ ts = some doc → ∃ us rest t, ts = us ++ rest ∧
    Derives us (.value t) ∧ run (put O t) rest = some doc

def FindsItems (ts : List Token) : Prop :=
  ∀ acc O doc, run ⟨.array acc :: O, .item, none⟩ ts = some doc → ∃ us rest items,
    ts = us ++ .endArray :: rest ∧ Derives us (.items items) ∧
    run (put O (.array (acc.reverse ++ items))) rest = some doc

def FindsMembers (ts : List Token) : Prop :=
  ∀ acc O doc, run ⟨.object acc :: O, .name, none⟩ ts = some doc → ∃ us rest members,
    ts = us ++ .endObject :: rest ∧ Derives us (.members members) ∧
    run (put O (.object (acc.reverse ++ members))) rest = some doc

theorem findsValue (hitems : ∀ us, us.length < ts.length → FindsItems us)
    (hmembers : ∀ us, us.length < ts.length → FindsMembers us) : FindsValue ts := by
  intro O doc h
  rcases ts with _ | ⟨t, ts⟩
  · cases h
  have hshort : ts.length < (t :: ts).length := Nat.lt_succ_self _
  rw [run_cons] at h
  obtain ⟨b, hb, h⟩ := Option.bind_eq_some_iff.1 h
  change value? ⟨O, .item, none⟩ t = some b at hb
  cases t with
  | word w =>
    obtain ⟨t, ht, rfl⟩ := Option.map_eq_some_iff.1 hb
    exact ⟨[.word w], ts, t, rfl, .word (wordTree?_eq_some_iff.1 ht), h⟩
  | string s =>
    cases hb
    exact ⟨[.string s], ts, _, rfl, .string s, h⟩
  | beginArray =>
    cases hb
    by_cases hend : ∃ us, ts = .endArray :: us
    · obtain ⟨us, rfl⟩ := hend
      exact ⟨[.beginArray, .endArray], us, _, rfl, .emptyArray, h⟩
    · rw [run_firstItem (not_exists.1 hend)] at h
      obtain ⟨us, rest, items, rfl, hus, h⟩ := hitems ts hshort [] O doc h
      exact ⟨.beginArray :: (us ++ [.endArray]), rest, _, by simp, .array hus, h⟩
  | beginObject =>
    cases hb
    by_cases hend : ∃ us, ts = .endObject :: us
    · obtain ⟨us, rfl⟩ := hend
      exact ⟨[.beginObject, .endObject], us, _, rfl, .emptyObject, h⟩
    · rw [run_firstName (not_exists.1 hend)] at h
      obtain ⟨us, rest, members, rfl, hus, h⟩ := hmembers ts hshort [] O doc h
      exact ⟨.beginObject :: (us ++ [.endObject]), rest, _, by simp, .object hus, h⟩
  | _ => cases hb

/-- Behind an item stands a comma or the end of the array. -/
theorem separator_array {acc : List Tree}
    (h : run ⟨.array acc :: O, .separator, none⟩ ts = some doc) :
    (∃ us, ts = .endArray :: us ∧ run (put O (.array acc.reverse)) us = some doc) ∨
      ∃ us, ts = .comma :: us ∧ run ⟨.array acc :: O, .item, none⟩ us = some doc := by
  rcases ts with _ | ⟨t, ts⟩
  · cases h
  rw [run_cons] at h
  obtain ⟨b, hb, h⟩ := Option.bind_eq_some_iff.1 h
  cases t with
  | endArray =>
    cases hb
    exact .inl ⟨ts, rfl, h⟩
  | comma =>
    cases hb
    exact .inr ⟨ts, rfl, h⟩
  | _ => cases hb

theorem separator_object {acc : List (Option String × Tree)}
    (h : run ⟨.object acc :: O, .separator, none⟩ ts = some doc) :
    (∃ us, ts = .endObject :: us ∧ run (put O (.object acc.reverse)) us = some doc) ∨
      ∃ us, ts = .comma :: us ∧ run ⟨.object acc :: O, .name, none⟩ us = some doc := by
  rcases ts with _ | ⟨t, ts⟩
  · cases h
  rw [run_cons] at h
  obtain ⟨b, hb, h⟩ := Option.bind_eq_some_iff.1 h
  cases t with
  | endObject =>
    cases hb
    exact .inl ⟨ts, rfl, h⟩
  | comma =>
    cases hb
    exact .inr ⟨ts, rfl, h⟩
  | _ => cases hb

theorem findsItems (hvalue : FindsValue ts)
    (hitems : ∀ us, us.length < ts.length → FindsItems us) : FindsItems ts := by
  intro acc O doc h
  obtain ⟨us, rest, t, rfl, hus, h⟩ := hvalue _ _ h
  obtain ⟨rest, rfl, hend⟩ | ⟨rest, rfl, hmore⟩ := separator_array h
  · refine ⟨us, rest, [t], rfl, .item hus, ?_⟩
    rwa [List.reverse_cons] at hend
  · obtain ⟨vs, rest, items, rfl, hvs, h⟩ := hitems rest (by simp; omega) _ _ _ hmore
    refine ⟨us ++ .comma :: vs, rest, t :: items, by simp, .moreItems hus hvs, ?_⟩
    rwa [reverse_cons_append] at h

/-- A member begins with its name and a colon. -/
theorem name_colon {acc : List (Option String × Tree)}
    (h : run ⟨.object acc :: O, .name, none⟩ ts = some doc) :
    ∃ name us, ts = .string name :: .colon :: us ∧
      run ⟨.member acc name :: O, .item, none⟩ us = some doc := by
  rcases ts with _ | ⟨t, ts⟩
  · cases h
  rw [run_cons] at h
  obtain ⟨b, hb, h⟩ := Option.bind_eq_some_iff.1 h
  cases t with
  | string name =>
    cases hb
    rcases ts with _ | ⟨t, ts⟩
    · cases h
    rw [run_cons] at h
    obtain ⟨b, hb, h⟩ := Option.bind_eq_some_iff.1 h
    cases t with
    | colon =>
      cases hb
      exact ⟨name, ts, rfl, h⟩
    | _ => cases hb
  | _ => cases hb

theorem findsMembers (hvalue : ∀ us, us.length < ts.length → FindsValue us)
    (hmembers : ∀ us, us.length < ts.length → FindsMembers us) : FindsMembers ts := by
  intro acc O doc h
  obtain ⟨name, us, rfl, h⟩ := name_colon h
  obtain ⟨us, rest, t, rfl, hus, h⟩ := hvalue us (Nat.lt_succ_of_lt (Nat.lt_succ_self _)) _ _ h
  obtain ⟨rest, rfl, hend⟩ | ⟨rest, rfl, hmore⟩ := separator_object h
  · refine ⟨.string name :: .colon :: us, rest, [(name, t)], rfl, .member name hus, ?_⟩
    rwa [List.reverse_cons] at hend
  · obtain ⟨vs, rest, members, rfl, hvs, h⟩ := hmembers rest (by simp; omega) _ _ _ hmore
    refine ⟨_, rest, (name, t) :: members, ?_, .moreMembers name hus hvs, ?_⟩
    · simp
    · rwa [reverse_cons_append] at h

theorem finds (ts : List Token) : FindsValue ts ∧ FindsItems ts ∧ FindsMembers ts := by
  induction hn : ts.length using Nat.strongRecOn generalizing ts with
  | _ n ih =>
    subst hn
    have shorter : ∀ us : List Token, us.length < ts.length →
        FindsValue us ∧ FindsItems us ∧ FindsMembers us := fun us hus => ih us.length hus us rfl
    -- The items of an array and the members of an object stand behind a bracket, so they are found
    -- in fewer tokens; a first item is found in the same tokens as a value.
    have hvalue : FindsValue ts :=
      findsValue (fun us hus => (shorter us hus).2.1) fun us hus => (shorter us hus).2.2
    exact ⟨hvalue, findsItems hvalue fun us hus => (shorter us hus).2.1,
      findsMembers (fun us hus => (shorter us hus).1) fun us hus => (shorter us hus).2.2⟩

end Builder

/-! ## Texts -/

theorem build?_eq_some_iff {ts : List Token} {t : Tree} :
    build? ts = some t ↔ Derives ts (.value t) := by
  constructor
  · intro h
    obtain ⟨us, rest, t', rfl, hus, h⟩ := (Builder.finds ts).1 [] t h
    cases rest with
    | nil =>
      cases h
      rwa [List.append_nil]
    | cons u rest => cases h
  · intro h
    have hrun := Builder.takes_of_derives h [] []
    rw [List.append_nil] at hrun
    exact hrun

theorem read?_eq_some_iff {text : List Char} {t : Tree} :
    read? text = some t ↔ IsText text t := by
  rw [read?, Option.bind_eq_some_iff]
  simp only [tokens?_eq_some_iff, build?_eq_some_iff, IsText]

/-- A text is the text of one document at most. -/
theorem IsText.unique {text : List Char} {t u : Tree} (ht : IsText text t) (hu : IsText text u) :
    t = u :=
  Option.some.inj ((read?_eq_some_iff.2 ht).symm.trans (read?_eq_some_iff.2 hu))

end Json
end MarketFeed
