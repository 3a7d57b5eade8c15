import MarketFeed.Proofs.Decimal.Text
import MarketFeed.Proofs.Json.Alike
import MarketFeed.Proofs.Json.Values
import MarketFeed.Proofs.Time.Text

/-!
# MarketFeed.Proofs.Json.Fields

Records as documents, field by field.

* `Members.perm_ofList` — sorting members of different names loses none of them.
* `fields?_of_perm` — the fields of a record whose members stand in any order.
* `LeftOut`, `LeftOut.fields?` — two documents, one without the last field of the other.
* `instant?_ofInstant`, `optional?_ofOption`, … — a field is read as what it was.
* `Members.Portable` — members of an object inside of a record that are read as what they were.
-/

namespace MarketFeed
namespace Json

/-! ## Lists of results -/

section

variable {α β : Type} {f : α → Option β} {l : List α}

theorem mapM_congr {g : α → Option β} (h : ∀ a ∈ l, f a = g a) : l.mapM f = l.mapM g := by
  induction l with
  | nil => rfl
  | cons a l ih =>
    obtain ⟨ha, hl⟩ := List.forall_mem_cons.1 h
    rw [List.mapM_cons, List.mapM_cons, ha, ih hl]

theorem mapM_eq_some_map {g : α → β} (h : ∀ a ∈ l, f a = some (g a)) :
    l.mapM f = some (l.map g) := (mapM_congr h).trans List.mapM_pure

theorem exists_of_mapM {bs : List β} (h : l.mapM f = some bs) :
    ∀ b ∈ bs, ∃ a ∈ l, f a = some b := by
  induction l generalizing bs with
  | nil =>
    cases h
    exact nofun
  | cons a l ih =>
    rw [List.mapM_cons] at h
    obtain ⟨b, hb, h⟩ := Option.bind_eq_some_iff.1 h
    obtain ⟨bs, hbs, h⟩ := Option.bind_eq_some_iff.1 h
    cases h
    refine List.forall_mem_cons.2 ⟨⟨a, List.mem_cons_self, hb⟩, fun c hc => ?_⟩
    obtain ⟨d, hd, hc⟩ := ih hbs c hc
    exact ⟨d, List.mem_cons_of_mem a hd, hc⟩

theorem length_of_mapM {bs : List β} (h : l.mapM f = some bs) : bs.length = l.length := by
  induction l generalizing bs with
  | nil =>
    cases h
    rfl
  | cons a l ih =>
    rw [List.mapM_cons] at h
    obtain ⟨b, -, h⟩ := Option.bind_eq_some_iff.1 h
    obtain ⟨bs, hbs, h⟩ := Option.bind_eq_some_iff.1 h
    cases h
    rw [List.length_cons, List.length_cons, ih hbs]

end

/-! ## Members in any order -/

theorem Members.perm_insert {n : String} {v : Value} {ms : Members} (h : n ∉ ms.map (·.1)) :
    (insert n v ms).Perm ((n, v) :: ms) := by
  induction ms with
  | nil => exact .refl _
  | cons m ms ih =>
    rw [List.map_cons, List.mem_cons, not_or] at h
    rw [insert]
    split
    · exact .refl _
    · rw [if_neg h.1]
      exact ((ih h.2).cons m).trans (.swap _ _ ms)

/-- Members of different names are sorted without losing any. -/
theorem Members.perm_ofList {l : List (String × Value)} (h : (l.map (·.1)).Nodup) :
    (ofList l).Perm l := by
  have hfold : ∀ ms : Members, ((ms ++ l).map (·.1)).Nodup →
      (l.foldl (fun ms m => insert m.1 m.2 ms) ms).Perm (ms ++ l) := by
    clear h
    induction l with
    | nil => exact fun ms _ => by rw [List.append_nil]; exact .refl ms
    | cons m l ih =>
      intro ms hnodup
      have hnew : m.1 ∉ ms.map (·.1) := fun hmem => by
        rw [List.map_append, List.nodup_append] at hnodup
        exact hnodup.2.2 _ hmem _ List.mem_cons_self rfl
      have hperm : (insert m.1 m.2 ms ++ l).Perm (ms ++ m :: l) :=
        ((perm_insert hnew).append_right l).trans List.perm_middle.symm
      exact (ih _ ((hperm.map _).nodup_iff.2 hnodup)).trans hperm
  exact hfold [] h

theorem assigned_of_nodup {l : List (String × Value)} (h : (l.map (·.1)).Nodup) :
    ∀ m ∈ l, assigned m.1 l = [m.2] := by
  induction l with
  | nil => exact nofun
  | cons p l ih =>
    obtain ⟨hnew, hnodup⟩ := List.nodup_cons.1 h
    refine List.forall_mem_cons.2 ⟨?_, fun m hm => ?_⟩
    · have hnone : assigned p.1 l = [] :=
        List.map_eq_nil_iff.2 (List.filter_eq_nil_iff.2 fun m hm heq =>
          hnew (List.mem_map.2 ⟨m, hm, beq_iff_eq.1 heq⟩))
      rw [assigned_cons, if_pos rfl, hnone]
    · have hne : p.1 ≠ m.1 := fun heq => hnew (List.mem_map.2 ⟨m, hm, heq.symm⟩)
      rw [assigned_cons, if_neg hne, ih hnodup m hm]

/-- The fields of a record whose members stand in any order. -/
theorem fields?_of_perm {names : List String} {l ms : List (String × Value)}
    (hnames : l.map (·.1) = names) (hnodup : names.Nodup) (h : ms.Perm l) (b : Bool) :
    fields? names b (Value.object ms).tree = some (l.map fun m => some m.2.tree) := by
  subst hnames
  have hperm : (memberTreesOf l).Perm (memberTreesOf ms) := by
    rw [memberTreesOf_eq_map, memberTreesOf_eq_map]
    exact h.symm.map _
  have hdistinct : ((memberTreesOf l).filterMap (·.1)).Nodup := by
    rw [memberTreesOf_eq_map, List.filterMap_map]
    simpa using hnodup
  refine (objectFields?_memberTreesOf _ ms).trans ?_
  rw [List.mapM_map]
  refine mapM_eq_some_map fun m hm => ?_
  rw [Function.comp_apply, field?, ← valuesOf_perm hperm hdistinct, valuesOf_memberTreesOf,
    assigned_of_nodup hnodup m hm]
  rfl

/-! ## A last field that may be left out -/

/-- In one document of a record the last field is left out, in the other it is `t`. -/
inductive LeftOut (names : List String) (last : String) (t : Tree) : Tree → Tree → Prop
  | object {front back : List (Option String × Tree)}
      (h : ∀ m ∈ front ++ back, m.1 ≠ some last) :
      LeftOut names last t (.object (front ++ back)) (.object (front ++ (some last, t) :: back))
  | array {items : List Tree} (h : items.length = names.length) :
      LeftOut names last t (.array items) (.array (items ++ [t]))

section

variable {names : List String} {last : String} {t : Tree}

theorem valuesOf_eq_nil {members : List (Option String × Tree)}
    (h : ∀ m ∈ members, m.1 ≠ some last) : valuesOf last members = [] :=
  List.map_eq_nil_iff.2 (List.filter_eq_nil_iff.2 fun m hm heq => h m hm (beq_iff_eq.1 heq))

theorem mapM_concat {α β : Type} {f : α → Option β} (l : List α) {a : α} {b : β}
    (h : f a = some b) : (l ++ [a]).mapM f = (l.mapM f).map (· ++ [b]) := by
  rw [List.mapM_append, List.mapM_cons, h]
  cases l.mapM f <;> rfl

theorem objectFields?_leftOut {members : List (Option String × Tree)}
    (h : ∀ m ∈ members, m.1 ≠ some last) :
    objectFields? (names ++ [last]) members =
      (objectFields? names members).map (· ++ [none]) := by
  have hfield : field? last members = some none := by rw [field?, valuesOf_eq_nil h]
  rw [objectFields?_eq, objectFields?_eq]
  split
  · rfl
  · exact mapM_concat names hfield

theorem objectFields?_given {front back : List (Option String × Tree)}
    (h : ∀ m ∈ front ++ back, m.1 ≠ some last) (hlast : last ∉ names) :
    objectFields? (names ++ [last]) (front ++ (some last, t) :: back) =
      (objectFields? names (front ++ back)).map (· ++ [some t]) := by
  obtain ⟨hfront, hback⟩ := List.forall_mem_append.1 h
  have hfield : field? last (front ++ (some last, t) :: back) = some (some t) := by
    rw [field?, valuesOf_append, valuesOf_cons, if_pos rfl, valuesOf_eq_nil hfront,
      valuesOf_eq_nil hback]
    rfl
  have hother : ∀ n ∈ names,
      field? n (front ++ (some last, t) :: back) = field? n (front ++ back) := fun n hn => by
    have hne : some last ≠ some n := fun heq => hlast (Option.some.inj heq ▸ hn)
    rw [field?, field?, valuesOf_append, valuesOf_cons, if_neg hne, ← valuesOf_append]
  have hnames : ((front ++ (some last, t) :: back).any fun m => m.1.isNone) =
      (front ++ back).any fun m => m.1.isNone := by
    rw [List.any_append, List.any_cons, List.any_append]
    rfl
  rw [objectFields?_eq, objectFields?_eq, hnames, ← mapM_congr hother]
  split
  · rfl
  · exact mapM_concat names hfield

theorem LeftOut.of_members {l : List (String × Value)} (v : Value) (h : ∀ m ∈ l, m.1 ≠ last) :
    LeftOut names last v.tree (Value.object l).tree (Value.object (l ++ [(last, v)])).tree := by
  have hnames : ∀ m ∈ memberTreesOf l ++ [], m.1 ≠ some last := by
    rw [List.append_nil, memberTreesOf_eq_map, List.forall_mem_map]
    exact fun m hm heq => h m hm (Option.some.inj heq)
  have hleft : LeftOut names last v.tree (.object (memberTreesOf l ++ [])) _ := .object hnames
  rw [List.append_nil] at hleft
  rwa [Value.tree, Value.tree, memberTreesOf_eq_map (l ++ _), List.map_append,
    ← memberTreesOf_eq_map]

/-- The fields of both documents are the same but for the last. -/
theorem LeftOut.fields? {u v : Tree} (h : LeftOut names last t u v) (hlast : last ∉ names) :
    ∃ o : Option (List (Option Tree)),
      Json.fields? (names ++ [last]) true u = o.map (· ++ [none]) ∧
      Json.fields? (names ++ [last]) true v = o.map (· ++ [some t]) ∧
      ∀ l ∈ o, l.length = names.length := by
  cases h with
  | object h =>
    refine ⟨_, objectFields?_leftOut h, objectFields?_given h hlast, fun l hl => ?_⟩
    rw [Option.mem_def, objectFields?_eq] at hl
    split at hl
    · cases hl
    · exact length_of_mapM hl
  | @array items h =>
    have hnames : (names ++ [last]).length = items.length + 1 := by
      rw [List.length_append, h, List.length_singleton]
    refine ⟨some (items.map some), ?_, ?_, ?_⟩
    · rw [Json.fields?, hnames, if_neg (by omega), if_pos ⟨rfl, rfl⟩]
      rfl
    · rw [Json.fields?, hnames, List.length_append, List.length_singleton, if_pos rfl,
        List.map_append]
      rfl
    · rintro _ ⟨⟩
      rw [List.length_map, h]

end

/-- The fields of a record are parts of its document. -/
theorem Tree.Fits.of_fields? {names : List String} {b : Bool} {t : Tree}
    {l : List (Option Tree)} (h : t.Fits) (hl : Json.fields? names b t = some l) :
    ∀ field ∈ l, ∀ u ∈ field, u.Fits := by
  cases h with
  | @array items h =>
    have hitems : ∀ field ∈ items.map some, ∀ u ∈ field, u.Fits := by
      rintro _ hfield u rfl
      exact h u (by simpa using hfield)
    unfold Json.fields? at hl
    dsimp only at hl
    split at hl
    · cases hl
      exact hitems
    split at hl
    · cases hl
      exact List.forall_mem_append.2 ⟨hitems, by simp⟩
    · cases hl
  | @object members h =>
    change objectFields? names members = some l at hl
    rw [objectFields?_eq] at hl
    split at hl
    · cases hl
    rintro _ hfield u rfl
    obtain ⟨n, -, hn⟩ := exists_of_mapM hl _ hfield
    unfold field? at hn
    split at hn
    · cases hn
    · next t hvalues =>
      cases hn
      have hmem : u ∈ valuesOf n members := by rw [hvalues]; exact List.mem_singleton_self u
      obtain ⟨m, hm, rfl⟩ := List.mem_map.1 hmem
      exact h m (List.mem_filter.1 hm).1
    · cases hn
  | _ => cases hl

/-! ## Single fields -/

theorem text?_string (s : String) : (Value.string s).tree.text? = some s := rfl

theorem instant?_ofInstant (t : Instant) : (Value.ofInstant t).tree.instant? = some t := by
  have htext : (Value.ofInstant t).tree.text? = some t.text := rfl
  rw [Tree.instant?, htext, Option.bind_some, Instant.ofText?_text]

theorem decimal?_ofDecimal (d : Decimal) : (Value.ofDecimal d).tree.decimal? = some d :=
  Decimal.ofText?_text d

theorem word64?_ofNat (n : UInt64) : (Value.ofNat n.toNat).tree.word64? = some n.toNat := by
  have hint : (Value.ofNat n.toNat).tree.int? = some (n.toNat : Int) := rfl
  have hlt := n.toNat_lt
  rw [Tree.word64?, Tree.natBelow?, hint, Option.bind_some, if_pos ⟨by omega, by omega⟩,
    Int.toNat_natCast]

/-- A field that is there is not null, so it is told from one that is missing. -/
theorem optional?_ofOption {α β : Type} {f : Tree → Option β} {g : α → Value} {k : α → β}
    (hread : ∀ a, f (g a).tree = some (k a)) (hnull : ∀ a, (g a).tree ≠ .null) (o : Option α) :
    optional? f (some (Value.ofOption g o).tree) = some (o.map k) := by
  cases o with
  | none => rfl
  | some a =>
    have hsome : optional? f (some (g a).tree) = (f (g a).tree).map some := by
      unfold optional?
      split
      · next heq => cases heq
      · next heq => exact absurd (Option.some.inj heq) (hnull a)
      · next heq => cases heq; rfl
    exact hsome.trans (congrArg _ (hread a))

/-! ## Members of any kind -/

/-- A text, or an integer of 64 bits. -/
inductive Value.Plain : Value → Prop
  | string (s : String) : Plain (.string s)
  | int {i : Int} (h : FitsWord i) : Plain (.number (.int i))

namespace Members

/-- Members of an object inside of a record that are read as what they were: not nested too deeply,
and without doubles. -/
structure Portable (ms : Members) : Prop where
  means : (Value.object ms).tree.valueWithin? (maxDepth - 1) = some (.object ms)
  exact : (Value.object ms).Exact

theorem membersWithin?_eq_some_iff {room : Nat} {t : Tree} {ms : Members} :
    t.membersWithin? room = some ms ↔ t.valueWithin? room = some (.object ms) := by
  constructor
  · intro h
    unfold Tree.membersWithin? at h
    split at h
    · split at h
      · next hmeans =>
        cases h
        exact hmeans
      · cases h
    · cases h
  · intro h
    obtain ⟨-, members, -, rfl, -, -⟩ := Tree.Means.exists_members ⟨room, h⟩
    unfold Tree.membersWithin?
    dsimp only
    rw [h]

theorem Portable.defaulted? {ms : Members} (h : ms.Portable) :
    defaulted? (Tree.membersWithin? (maxDepth - 1)) [] (some (Value.object ms).tree) = some ms :=
  membersWithin?_eq_some_iff.2 h.means

theorem defaulted?_empty :
    Json.defaulted? (Tree.membersWithin? (maxDepth - 1)) [] (some (.object [])) = some [] := rfl

theorem portable_of_defaulted? {field : Option Tree} {ms : Members}
    (h : Json.defaulted? (Tree.membersWithin? (maxDepth - 1)) [] field = some ms)
    (hfits : ∀ t ∈ field, t.Fits) (hfree : (Value.object ms).FloatFree) : ms.Portable := by
  cases field with
  | none =>
    cases h
    exact ⟨rfl, .object nofun⟩
  | some t =>
    have hmeans := membersWithin?_eq_some_iff.1 h
    exact ⟨Tree.valueWithin?_tree hmeans, (hfits t rfl).exact hmeans hfree⟩

theorem portable_ofList {l : List (String × Value)} (h : ∀ m ∈ l, m.2.Plain) :
    (ofList l).Portable := by
  have hmeans : ∀ m ∈ l, m.2.tree.valueWithin? 125 = some m.2 := by
    rintro ⟨n, v⟩ hm
    have hplain : v.Plain := h _ hm
    cases hplain <;> rfl
  have hrecord : (Value.object l).tree.valueWithin? (maxDepth - 1) = some (.record l) := by
    rw [Value.tree, maxDepth, Tree.valueWithin?, membersWithin?_memberTreesOf hmeans]
    rfl
  refine ⟨Tree.valueWithin?_tree hrecord, .object ?_⟩
  rintro ⟨n, v⟩ hm
  have hplain : v.Plain := h _ (mem_ofList hm)
  cases hplain with
  | string s => exact .string s
  | int h => exact .int h

end Members

end Json
end MarketFeed
