import MarketFeed.Json.Record

/-!
# MarketFeed.Proofs.Json.Meaning

What documents mean, and what is read out of their meaning.

* `Tree.Readable` — documents that are not nested too deeply, with numbers and strings that are
  some. `Tree.isSome_value?` says that these and no others mean something.
* `Tree.member?` — the member of an object; of those of one name the last.
* `Tree.Means.members` — the meaning of an object has the meanings of its members.
* `fields?_tree`, `required?_of_means` — a record that is read out of the meaning of a document has
  the fields that the document has.
-/

namespace MarketFeed
namespace Json

/-! ## Documents that mean something -/

/-- Inside of a document no more than `room` containers are open at once. -/
inductive Tree.NestsWithin : Nat → Tree → Prop
  | null (room : Nat) : NestsWithin room .null
  | bool (room : Nat) (b : Bool) : NestsWithin room (.bool b)
  | number (room : Nat) (n : Option Num) : NestsWithin room (.number n)
  | string (room : Nat) (s : Option String) : NestsWithin room (.string s)
  | array {room : Nat} {items : List Tree} (h : ∀ t ∈ items, NestsWithin room t) :
      NestsWithin (room + 1) (.array items)
  | object {room : Nat} {members : List (Option String × Tree)}
      (h : ∀ m ∈ members, NestsWithin room m.2) : NestsWithin (room + 1) (.object members)

/-- Every number, string and name in a document is one. -/
inductive Tree.Denotes : Tree → Prop
  | null : Denotes .null
  | bool (b : Bool) : Denotes (.bool b)
  | number (n : Num) : Denotes (.number (some n))
  | string (s : String) : Denotes (.string (some s))
  | array {items : List Tree} (h : ∀ t ∈ items, Denotes t) : Denotes (.array items)
  | object {members : List (Option String × Tree)} (hnames : ∀ m ∈ members, m.1.isSome = true)
      (h : ∀ m ∈ members, Denotes m.2) : Denotes (.object members)

structure Tree.Readable (t : Tree) : Prop where
  nests : t.NestsWithin maxDepth
  denotes : t.Denotes

/-- Documents by their parts. -/
@[elab_as_elim, induction_eliminator]
theorem Tree.partsInduction {motive : Tree → Prop} (null : motive .null)
    (bool : ∀ b, motive (.bool b)) (number : ∀ n, motive (.number n))
    (string : ∀ s, motive (.string s))
    (array : ∀ items, (∀ t ∈ items, motive t) → motive (.array items))
    (object : ∀ members, (∀ m ∈ members, motive m.2) → motive (.object members)) :
    ∀ t, motive t
  | .null => null
  | .bool b => bool b
  | .number n => number n
  | .string s => string s
  | .array items => array items fun t _ => partsInduction null bool number string array object t
  | .object members =>
    object members fun m _ => partsInduction null bool number string array object m.2
termination_by t => sizeOf t
decreasing_by
  · have := List.sizeOf_lt_of_mem ‹_ ∈ items›
    simp only [Tree.array.sizeOf_spec]
    omega
  · have hmem := List.sizeOf_lt_of_mem ‹_ ∈ members›
    have hpair : sizeOf m = 1 + sizeOf m.1 + sizeOf m.2 := rfl
    simp only [Tree.object.sizeOf_spec]
    omega

theorem isSome_itemsWithin? (room : Nat) (items : List Tree) :
    (itemsWithin? room items).isSome = true ↔
      ∀ t ∈ items, (t.valueWithin? room).isSome = true := by
  induction items with
  | nil => exact ⟨nofun, fun _ => rfl⟩
  | cons t items ih =>
    rw [List.forall_mem_cons, ← ih, itemsWithin?]
    cases t.valueWithin? room <;> cases itemsWithin? room items <;> simp

theorem isSome_membersWithin? (room : Nat) (members : List (Option String × Tree)) :
    (membersWithin? room members).isSome = true ↔
      (∀ m ∈ members, m.1.isSome = true) ∧
        ∀ m ∈ members, (m.2.valueWithin? room).isSome = true := by
  induction members with
  | nil => exact ⟨fun _ => ⟨nofun, nofun⟩, fun _ => rfl⟩
  | cons m members ih =>
    obtain ⟨name, t⟩ := m
    rw [List.forall_mem_cons, List.forall_mem_cons, and_and_and_comm, ← ih]
    rcases name with _ | name <;> cases ht : t.valueWithin? room <;>
      cases hms : membersWithin? room members <;> simp [membersWithin?, ht, hms]

theorem Tree.isSome_valueWithin? (room : Nat) (t : Tree) :
    (t.valueWithin? room).isSome = true ↔ t.NestsWithin room ∧ t.Denotes := by
  induction t generalizing room with
  | null => exact ⟨fun _ => ⟨.null room, .null⟩, fun _ => rfl⟩
  | bool b => exact ⟨fun _ => ⟨.bool room b, .bool b⟩, fun _ => rfl⟩
  | number n =>
    cases n with
    | none => exact ⟨nofun, nofun⟩
    | some n => exact ⟨fun _ => ⟨.number room n, .number n⟩, fun _ => rfl⟩
  | string s =>
    cases s with
    | none => exact ⟨nofun, nofun⟩
    | some s => exact ⟨fun _ => ⟨.string room s, .string s⟩, fun _ => rfl⟩
  | array items ih =>
    cases room with
    | zero => exact ⟨nofun, nofun⟩
    | succ room =>
      rw [valueWithin?, Option.isSome_map, isSome_itemsWithin?]
      constructor
      · exact fun h => ⟨.array fun t ht => ((ih t ht room).1 (h t ht)).1,
          .array fun t ht => ((ih t ht room).1 (h t ht)).2⟩
      · rintro ⟨hnests, hdenotes⟩ t ht
        cases hnests with | array hnests =>
        cases hdenotes with | array hdenotes =>
        exact (ih t ht room).2 ⟨hnests t ht, hdenotes t ht⟩
  | object members ih =>
    cases room with
    | zero => exact ⟨nofun, nofun⟩
    | succ room =>
      rw [valueWithin?, Option.isSome_map, isSome_membersWithin?]
      constructor
      · exact fun ⟨hnames, h⟩ => ⟨.object fun m hm => ((ih m hm room).1 (h m hm)).1,
          .object hnames fun m hm => ((ih m hm room).1 (h m hm)).2⟩
      · rintro ⟨hnests, hdenotes⟩
        cases hnests with | object hnests =>
        cases hdenotes with | object hnames hdenotes =>
        exact ⟨hnames, fun m hm => (ih m hm room).2 ⟨hnests m hm, hdenotes m hm⟩⟩

theorem Tree.isSome_value? {t : Tree} : t.value?.isSome = true ↔ t.Readable := by
  rw [value?, isSome_valueWithin?]
  exact ⟨fun ⟨hnests, hdenotes⟩ => ⟨hnests, hdenotes⟩, fun ⟨hnests, hdenotes⟩ => ⟨hnests, hdenotes⟩⟩

theorem Tree.NestsWithin.succ {room : Nat} {t : Tree} (h : t.NestsWithin room) :
    t.NestsWithin (room + 1) := by
  induction h with
  | null room => exact .null _
  | bool room b => exact .bool _ b
  | number room n => exact .number _ n
  | string room s => exact .string _ s
  | array _ ih => exact .array ih
  | object _ ih => exact .object ih

/-! ## Parts that may be missing -/

section

variable {α α' β : Type} {r : α → α' → Prop} {a : Option α} {a' : Option α'}

theorem rel_isSome (h : Option.Rel r a a') : a.isSome = a'.isSome := by
  cases h <;> rfl

theorem rel_getD {d : α} {d' : α'} (h : Option.Rel r a a') (hd : r d d') :
    r (a.getD d) (a'.getD d') := by
  cases h with
  | some h => exact h
  | none => exact hd

theorem rel_bind {f : α → Option β} {f' : α' → Option β} (h : Option.Rel r a a')
    (hf : ∀ x y, r x y → f x = f' y) : a.bind f = a'.bind f' := by
  cases h with
  | some h => exact hf _ _ h
  | none => rfl

end

/-! ## The members of an object -/

section

variable {name : String}

/-- The values that a list of assignments gives to a name. -/
def assigned (name : String) (l : List (String × Value)) : List Value :=
  (l.filter fun m => m.1 == name).map (·.2)

theorem assigned_cons (m : String × Value) (l : List (String × Value)) :
    assigned name (m :: l) = if m.1 = name then m.2 :: assigned name l else assigned name l := by
  by_cases h : m.1 = name
  · simp [assigned, h]
  · simp [assigned, h]

theorem valuesOf_cons (m : Option String × Tree) (l : List (Option String × Tree)) :
    valuesOf name (m :: l) =
      if m.1 = some name then m.2 :: valuesOf name l else valuesOf name l := by
  by_cases h : m.1 = some name
  · simp [valuesOf, h]
  · simp [valuesOf, h]

namespace Members

theorem get?_cons (m : String × Value) (ms : Members) :
    get? (m :: ms) name = if m.1 = name then some m.2 else get? ms name := by
  by_cases h : m.1 = name
  · simp [get?, h]
  · simp [get?, h]

theorem get?_insert (n : String) (v : Value) (ms : Members) :
    get? (insert n v ms) name = if n = name then some v else get? ms name := by
  induction ms with
  | nil => rw [insert, get?_cons]
  | cons m ms ih =>
    obtain ⟨k, w⟩ := m
    rw [insert]
    by_cases hlt : n < k
    · rw [if_pos hlt, get?_cons]
    · rw [if_neg hlt]
      by_cases hnk : n = k
      · subst hnk
        rw [if_pos rfl, get?_cons, get?_cons]
        by_cases hn : n = name
        · rw [if_pos hn, if_pos hn]
        · rw [if_neg hn, if_neg hn, if_neg hn]
      · rw [if_neg hnk, get?_cons, get?_cons, ih]
        by_cases hk : k = name
        · rw [if_pos hk, if_pos hk, if_neg fun hn => hnk (hn.trans hk.symm)]
        · rw [if_neg hk, if_neg hk]

/-- Of repeated names the last one counts. -/
theorem get?_ofList (l : List (String × Value)) :
    get? (ofList l) name = (assigned name l).getLast? := by
  -- What was there before counts only if nothing is assigned to the name.
  have hfold : ∀ ms : Members, get? (l.foldl (fun ms m => insert m.1 m.2 ms) ms) name =
      (assigned name l).getLast?.or (get? ms name) := by
    induction l with
    | nil => exact fun _ => rfl
    | cons m l ih =>
      intro ms
      rw [List.foldl_cons, ih, get?_insert, assigned_cons]
      by_cases hm : m.1 = name
      · rw [if_pos hm, if_pos hm, List.getLast?_cons]
        cases (assigned name l).getLast? <;> rfl
      · rw [if_neg hm, if_neg hm]
  exact (hfold []).trans Option.or_none

/-- Sorted by name, each name once. -/
def Sorted (ms : Members) : Prop := ms.Pairwise fun m n => m.1 < n.1

theorem mem_insert {n : String} {v : Value} {ms : Members} {m : String × Value}
    (h : m ∈ insert n v ms) : m = (n, v) ∨ m ∈ ms := by
  induction ms with
  | nil => exact .inl (List.mem_singleton.1 h)
  | cons p ms ih =>
    rw [insert] at h
    split at h
    · exact List.mem_cons.1 h
    split at h
    · exact (List.mem_cons.1 h).imp_right (List.mem_cons_of_mem p)
    · rcases List.mem_cons.1 h with rfl | h
      · exact .inr List.mem_cons_self
      · exact (ih h).imp_right (List.mem_cons_of_mem p)

theorem sorted_insert (n : String) (v : Value) {ms : Members} (h : Sorted ms) :
    Sorted (insert n v ms) := by
  induction ms with
  | nil => exact List.pairwise_singleton _ _
  | cons m ms ih =>
    obtain ⟨k, w⟩ := m
    obtain ⟨hk, hms⟩ := List.pairwise_cons.1 h
    rw [insert]
    by_cases hlt : n < k
    · rw [if_pos hlt]
      refine List.pairwise_cons.2 ⟨fun m hm => ?_, h⟩
      rcases List.mem_cons.1 hm with rfl | hm
      · exact hlt
      · exact String.lt_trans hlt (hk m hm)
    · rw [if_neg hlt]
      by_cases hnk : n = k
      · subst hnk
        rw [if_pos rfl]
        exact List.pairwise_cons.2 ⟨hk, hms⟩
      · rw [if_neg hnk]
        refine List.pairwise_cons.2 ⟨fun m hm => ?_, ih hms⟩
        rcases mem_insert hm with rfl | hm
        · exact Std.lt_of_le_of_ne (String.not_lt.1 hlt) (Ne.symm hnk)
        · exact hk m hm

theorem sorted_ofList (l : List (String × Value)) : Sorted (ofList l) := by
  have hfold : ∀ ms : Members, Sorted ms →
      Sorted (l.foldl (fun ms m => insert m.1 m.2 ms) ms) := by
    induction l with
    | nil => exact fun _ h => h
    | cons m l ih => exact fun ms h => ih _ (sorted_insert m.1 m.2 h)
  exact hfold [] List.Pairwise.nil

theorem assigned_of_sorted {ms : Members} (h : Sorted ms) :
    assigned name ms = (get? ms name).toList := by
  induction ms with
  | nil => rfl
  | cons m ms ih =>
    obtain ⟨hm, hms⟩ := List.pairwise_cons.1 h
    rw [assigned_cons, get?_cons]
    by_cases hname : m.1 = name
    · have hnone : assigned name ms = [] := by
        refine List.map_eq_nil_iff.2 (List.filter_eq_nil_iff.2 fun n hn heq => ?_)
        have hlt := hm n hn
        rw [hname, beq_iff_eq.1 heq] at hlt
        exact String.lt_irrefl name hlt
      rw [if_pos hname, if_pos hname, hnone]
      rfl
    · rw [if_neg hname, if_neg hname, ih hms]

end Members

/-! ## The meaning of a document -/

/-- The member of a name of an object; of several the last. -/
def Tree.member? (name : String) : Tree → Option Tree
  | .object members => (valuesOf name members).getLast?
  | _ => none

/-- A document means a value. -/
def Tree.Means (t : Tree) (v : Value) : Prop := ∃ room, t.valueWithin? room = some v

theorem assigned_of_membersWithin? (name : String) {room : Nat}
    {members : List (Option String × Tree)} {l : List (String × Value)}
    (h : membersWithin? room members = some l) :
    (valuesOf name members).map (·.valueWithin? room) = (assigned name l).map some := by
  induction members generalizing l with
  | nil =>
    cases h
    rfl
  | cons m members ih =>
    obtain ⟨n, t⟩ := m
    unfold membersWithin? at h
    split at h
    · next n v vs ht hvs =>
      cases h
      rw [valuesOf_cons, assigned_cons]
      by_cases hn : n = name
      · subst hn
        rw [if_pos rfl, if_pos rfl, List.map_cons, List.map_cons, ih hvs, ht]
      · rw [if_neg fun h => hn (Option.some.inj h), if_neg hn, ih hvs]
    · cases h

/-- What means an object is one. -/
theorem Tree.Means.exists_members {t : Tree} {ms : Members} (h : t.Means (.object ms)) :
    ∃ room members l, t = .object members ∧ Json.membersWithin? room members = some l ∧
      ms = Members.ofList l := by
  obtain ⟨room, h⟩ := h
  cases t with
  | object members =>
    cases room with
    | zero => cases h
    | succ room =>
      obtain ⟨l, hl, heq⟩ := Option.map_eq_some_iff.1 h
      cases heq
      exact ⟨room, members, l, rfl, hl, rfl⟩
  | array items =>
    cases room with
    | zero => cases h
    | succ room =>
      obtain ⟨l, -, heq⟩ := Option.map_eq_some_iff.1 h
      cases heq
  | number n => cases n <;> cases h
  | string s => cases s <;> cases h
  | _ => cases h

theorem Tree.Means.exists_object {members : List (Option String × Tree)} {v : Value}
    (h : (Tree.object members).Means v) : ∃ ms, v = .object ms := by
  obtain ⟨room, h⟩ := h
  cases room with
  | zero => cases h
  | succ room =>
    obtain ⟨l, -, rfl⟩ := Option.map_eq_some_iff.1 h
    exact ⟨_, rfl⟩

theorem Tree.Means.sorted {t : Tree} {ms : Members} (h : t.Means (.object ms)) : ms.Sorted := by
  obtain ⟨-, -, l, -, -, rfl⟩ := h.exists_members
  exact Members.sorted_ofList l

/-- The members of the meaning of an object. -/
theorem Tree.Means.members {t : Tree} {ms : Members} (h : t.Means (.object ms)) (name : String) :
    Option.Rel Means (t.member? name) (Members.get? ms name) := by
  obtain ⟨room, members, l, rfl, hl, rfl⟩ := h.exists_members
  have hlast := congrArg List.getLast? (assigned_of_membersWithin? name hl)
  rw [List.getLast?_map, List.getLast?_map, ← Members.get?_ofList] at hlast
  change Option.map _ (member? name (.object members)) = _ at hlast
  revert hlast
  cases member? name (.object members) <;> cases Members.get? (Members.ofList l) name
  · exact fun _ => .none
  · exact nofun
  · exact nofun
  · exact fun hlast => .some ⟨room, Option.some.inj hlast⟩

end

/-! ## Scalars -/

def Tree.IsContainer : Tree → Prop
  | .array _ => True
  | .object _ => True
  | _ => False

/-- Two documents are the same, unless both are containers. -/
def Tree.SameScalar (t u : Tree) : Prop := t = u ∨ t.IsContainer ∧ u.IsContainer

/-- A reader takes no container. -/
def ReadsScalar {α : Type} (f : Tree → Option α) : Prop := ∀ t : Tree, t.IsContainer → f t = none

theorem ReadsScalar.congr {α : Type} {f : Tree → Option α} (hf : ReadsScalar f) {t u : Tree}
    (h : t.SameScalar u) : f t = f u := by
  rcases h with rfl | ⟨ht, hu⟩
  · rfl
  · rw [hf t ht, hf u hu]

theorem readsScalar_of {α : Type} {f : Tree → Option α} (harray : ∀ items, f (.array items) = none)
    (hobject : ∀ members, f (.object members) = none) : ReadsScalar f
  | .array items, _ => harray items
  | .object members, _ => hobject members

theorem readsScalar_text? : ReadsScalar Tree.text? :=
  readsScalar_of (fun _ => rfl) fun _ => rfl

theorem readsScalar_bool? : ReadsScalar Tree.bool? :=
  readsScalar_of (fun _ => rfl) fun _ => rfl

theorem readsScalar_int64? : ReadsScalar Tree.int64? :=
  readsScalar_of (fun _ => rfl) fun _ => rfl

theorem readsScalar_word64? : ReadsScalar Tree.word64? :=
  readsScalar_of (fun _ => rfl) fun _ => rfl

theorem readsScalar_decimal? : ReadsScalar Tree.decimal? :=
  readsScalar_of (fun _ => rfl) fun _ => rfl

/-- A number, a text, a truth value or null means itself. -/
theorem Tree.Means.sameScalar {t : Tree} {v : Value} (h : t.Means v) : v.tree.SameScalar t := by
  obtain ⟨room, h⟩ := h
  cases t with
  | null => cases h; exact .inl rfl
  | bool b => cases h; exact .inl rfl
  | number n =>
    cases n with
    | none => cases h
    | some n => cases h; exact .inl rfl
  | string s =>
    cases s with
    | none => cases h
    | some s => cases h; exact .inl rfl
  | array items =>
    cases room with
    | zero => cases h
    | succ room =>
      obtain ⟨l, -, rfl⟩ := Option.map_eq_some_iff.1 h
      exact .inr ⟨trivial, trivial⟩
  | object members =>
    cases room with
    | zero => cases h
    | succ room =>
      obtain ⟨l, -, rfl⟩ := Option.map_eq_some_iff.1 h
      exact .inr ⟨trivial, trivial⟩

/-! ## Records -/

theorem memberTreesOf_eq_map (ms : Members) :
    memberTreesOf ms = ms.map fun m => (some m.1, m.2.tree) := by
  induction ms with
  | nil => rfl
  | cons m ms ih => rw [memberTreesOf, ih, List.map_cons]

theorem valuesOf_memberTreesOf (name : String) (ms : Members) :
    valuesOf name (memberTreesOf ms) = (assigned name ms).map Value.tree := by
  rw [memberTreesOf_eq_map]
  induction ms with
  | nil => rfl
  | cons m ms ih =>
    rw [List.map_cons, valuesOf_cons, assigned_cons, ih]
    by_cases hm : m.1 = name
    · rw [if_pos (congrArg some hm), if_pos hm, List.map_cons]
    · rw [if_neg fun h => hm (Option.some.inj h), if_neg hm]

/-- The field of a name; none if the name is repeated. -/
def field? (name : String) (members : List (Option String × Tree)) : Option (Option Tree) :=
  match valuesOf name members with
  | [] => some none
  | [t] => some (some t)
  | _ => none

theorem objectFields?_eq (names : List String) (members : List (Option String × Tree)) :
    objectFields? names members =
      if members.any fun m => m.1.isNone then none else names.mapM (field? · members) := rfl

theorem objectFields?_memberTreesOf (names : List String) (ms : Members) :
    objectFields? names (memberTreesOf ms) = names.mapM (field? · (memberTreesOf ms)) := by
  have hnames : ((memberTreesOf ms).any fun m => m.1.isNone) = false := by
    rw [memberTreesOf_eq_map, List.any_map, List.any_eq_false]
    exact fun _ _ => Bool.false_ne_true
  rw [objectFields?_eq, hnames, if_neg Bool.false_ne_true]

/-- The fields of a record that is read out of a value are the members of the value. -/
theorem fields?_tree (names : List String) {ms : Members} (h : ms.Sorted) :
    fields? names false (Value.object ms).tree =
      some (names.map fun n => (Members.get? ms n).map Value.tree) := by
  refine (objectFields?_memberTreesOf names ms).trans ?_
  refine Eq.trans (congrArg (names.mapM ·) (funext fun n => ?_)) List.mapM_pure
  rw [field?, valuesOf_memberTreesOf, Members.assigned_of_sorted h]
  cases Members.get? ms n <;> rfl

theorem required?_of_means {α : Type} {f : Tree → Option α} (hf : ReadsScalar f)
    {t : Option Tree} {v : Option Value} (h : Option.Rel Tree.Means t v) :
    required? f (v.map Value.tree) = t.bind f := by
  rw [required?, Option.bind_map]
  exact (rel_bind h fun _ _ hmeans => (hf.congr hmeans.sameScalar).symm).symm

end Json
end MarketFeed
