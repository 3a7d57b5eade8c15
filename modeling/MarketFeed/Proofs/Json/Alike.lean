import MarketFeed.Proofs.Json.Meaning
import Mathlib.Data.List.Nodup

/-!
# MarketFeed.Proofs.Json.Alike

Documents that differ in the order of members and in members of unknown names.

* `Alike` — the differences, anywhere in a document.
* `Alike.member?` — members of known names are alike.
* `Alike.readable_iff` — the order of members is nothing that makes a document unreadable.
-/

namespace MarketFeed
namespace Json

/-- Two documents are the same up to the order of members, where no two have one name, and up to
members with names that are unknown. -/
inductive Alike (unknown : String → Prop) : Tree → Tree → Prop
  | refl (t : Tree) : Alike unknown t t
  | symm {t u : Tree} (h : Alike unknown t u) : Alike unknown u t
  | trans {t u v : Tree} (h : Alike unknown t u) (h' : Alike unknown u v) : Alike unknown t v
  | order {members members' : List (Option String × Tree)} (hperm : members.Perm members')
      (hnames : (members.filterMap (·.1)).Nodup) :
      Alike unknown (.object members) (.object members')
  | extra {name : String} (hname : unknown name) (t : Tree)
      (front back : List (Option String × Tree)) :
      Alike unknown (.object (front ++ back)) (.object (front ++ (some name, t) :: back))
  | item {t u : Tree} (h : Alike unknown t u) (front back : List Tree) :
      Alike unknown (.array (front ++ t :: back)) (.array (front ++ u :: back))
  | member {t u : Tree} (h : Alike unknown t u) (name : Option String)
      (front back : List (Option String × Tree)) :
      Alike unknown (.object (front ++ (name, t) :: back)) (.object (front ++ (name, u) :: back))

variable {name : String}

/-! ## Lookups -/

theorem valuesOf_append (l l' : List (Option String × Tree)) :
    valuesOf name (l ++ l') = valuesOf name l ++ valuesOf name l' := by
  rw [valuesOf, List.filter_append, List.map_append]
  rfl

theorem length_valuesOf (members : List (Option String × Tree)) :
    (valuesOf name members).length = (members.filterMap (·.1)).count name := by
  induction members with
  | nil => rfl
  | cons m members ih =>
    obtain ⟨n, t⟩ := m
    rw [valuesOf_cons]
    cases n with
    | none => rw [List.filterMap_cons_none rfl, if_neg nofun, ih]
    | some n =>
      have hnames : ((some n, t) :: members).filterMap (·.1) = n :: members.filterMap (·.1) := rfl
      rw [hnames]
      by_cases hn : n = name
      · rw [if_pos (congrArg some hn), hn, List.count_cons_self, List.length_cons, ih]
      · rw [if_neg fun h => hn (Option.some.inj h), List.count_cons_of_ne hn, ih]

/-- Where no name is repeated, what a name stands for does not depend on the order. -/
theorem valuesOf_perm {members members' : List (Option String × Tree)}
    (hperm : members.Perm members') (hnames : (members.filterMap (·.1)).Nodup) :
    valuesOf name members = valuesOf name members' := by
  have hvalues : (valuesOf name members).Perm (valuesOf name members') :=
    (hperm.filter _).map _
  have hone : (valuesOf name members).length ≤ 1 := by
    rw [length_valuesOf]
    exact List.nodup_iff_count_le_one.1 hnames name
  rcases hl : valuesOf name members with _ | ⟨t, _ | ⟨u, l⟩⟩
  · rw [hl] at hvalues
    exact hvalues.nil_eq
  · rw [hl] at hvalues
    exact (List.perm_singleton.1 hvalues.symm).symm
  · rw [hl] at hone
    simp at hone

namespace Alike

variable {unknown : String → Prop} {t u : Tree}

theorem sameScalar (h : Alike unknown t u) : t.SameScalar u := by
  induction h with
  | refl => exact .inl rfl
  | symm _ ih => exact ih.imp Eq.symm And.symm
  | trans _ _ ih ih' =>
    rcases ih with rfl | ⟨ht, hu⟩
    · exact ih'
    · rcases ih' with rfl | ⟨-, hv⟩
      · exact .inr ⟨ht, hu⟩
      · exact .inr ⟨ht, hv⟩
  | _ => exact .inr ⟨trivial, trivial⟩

theorem member? (h : Alike unknown t u) (hname : ¬unknown name) :
    Option.Rel (Alike unknown) (t.member? name) (u.member? name) := by
  have same : ∀ o : Option Tree, Option.Rel (Alike unknown) o o
    | none => .none
    | some t => .some (.refl t)
  induction h with
  | refl => exact same _
  | symm _ ih =>
    revert ih
    generalize Tree.member? name _ = a
    generalize Tree.member? name _ = b
    rintro (h | _)
    · exact .some h.symm
    · exact .none
  | trans _ _ ih ih' =>
    revert ih ih'
    generalize Tree.member? name _ = a
    generalize Tree.member? name _ = b
    generalize Tree.member? name _ = c
    rintro (h | _) h'
    · cases h' with | some h' =>
      exact .some (h.trans h')
    · exact h'
  | order hperm hnames =>
    rw [Tree.member?, Tree.member?, valuesOf_perm hperm hnames]
    exact same _
  | @extra n hn t front back =>
    have hne : some n ≠ some name := fun heq => hname (Option.some.inj heq ▸ hn)
    rw [Tree.member?, Tree.member?, valuesOf_append, valuesOf_append, valuesOf_cons, if_neg hne]
    exact same _
  | item => exact .none
  | member h n front back =>
    rw [Tree.member?, Tree.member?, valuesOf_append, valuesOf_append, valuesOf_cons, valuesOf_cons]
    by_cases hn : n = some name
    · rw [if_pos hn, if_pos hn, List.getLast?_append, List.getLast?_append, List.getLast?_cons,
        List.getLast?_cons]
      -- A member of that name further back counts instead.
      cases (valuesOf name back).getLast? with
      | none => exact .some h
      | some w => exact .some (.refl w)
    · rw [if_neg hn, if_neg hn]
      exact same _

/-! ## Readability -/

theorem isSome_valueWithin?_iff (h : Alike (fun _ => False) t u) (room : Nat) :
    (t.valueWithin? room).isSome = true ↔ (u.valueWithin? room).isSome = true := by
  induction h generalizing room with
  | refl => exact Iff.rfl
  | symm _ ih => exact (ih room).symm
  | trans _ _ ih ih' => exact (ih room).trans (ih' room)
  | extra hname => exact hname.elim
  | order hperm _ =>
    cases room with
    | zero => exact Iff.rfl
    | succ room =>
      rw [Tree.valueWithin?, Tree.valueWithin?, Option.isSome_map, Option.isSome_map,
        isSome_membersWithin?, isSome_membersWithin?]
      simp only [hperm.mem_iff]
  | item _ front back ih =>
    cases room with
    | zero => exact Iff.rfl
    | succ room =>
      rw [Tree.valueWithin?, Tree.valueWithin?, Option.isSome_map, Option.isSome_map,
        isSome_itemsWithin?, isSome_itemsWithin?]
      simp only [List.forall_mem_append, List.forall_mem_cons, ih room]
  | member _ name front back ih =>
    cases room with
    | zero => exact Iff.rfl
    | succ room =>
      rw [Tree.valueWithin?, Tree.valueWithin?, Option.isSome_map, Option.isSome_map,
        isSome_membersWithin?, isSome_membersWithin?]
      simp only [List.forall_mem_append, List.forall_mem_cons, ih room]

theorem readable_iff (h : Alike (fun _ => False) t u) : t.Readable ↔ u.Readable := by
  rw [← Tree.isSome_value?, ← Tree.isSome_value?]
  exact h.isSome_valueWithin?_iff maxDepth

end Alike
end Json
end MarketFeed
