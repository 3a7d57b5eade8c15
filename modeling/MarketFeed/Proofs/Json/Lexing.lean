import MarketFeed.Proofs.Json.Strings
import Mathlib.Data.List.TakeWhile

/-!
# MarketFeed.Proofs.Json.Lexing

The tokens of a text.

* `Lexes` — a text is some tokens, one after another, with blanks anywhere between them.
* `Scanner.run_of_lexes`, `Scanner.lexes_of_run` — the scanner follows it in both directions, behind
  whatever it has read.
* `tokens?_eq_some_iff` — these tokens and no others are read.
-/

namespace MarketFeed
namespace Json

/-- The next character, if there is one, belongs to no word. -/
def EndsWord (cs : List Char) : Prop := ∀ c ∈ cs.head?, isWordChar c = false

inductive Lexes : List Char → List Token → Prop
  | nil : Lexes [] []
  | blank {c : Char} {cs : List Char} {ts : List Token} (hc : isSpace c = true)
      (h : Lexes cs ts) : Lexes (c :: cs) ts
  | mark {c : Char} {t : Token} {cs : List Char} {ts : List Token} (hc : punctuation? c = some t)
      (h : Lexes cs ts) : Lexes (c :: cs) (t :: ts)
  | word {w rest : List Char} {ts : List Token} (hne : w ≠ [])
      (hw : ∀ c ∈ w, isWordChar c = true) (hrest : EndsWord rest) (h : Lexes rest ts) :
      Lexes (w ++ rest) (.word w :: ts)
  | string {body rest : List Char} {s : Option (List Char)} {ts : List Token}
      (hs : StringSays body s) (h : Lexes rest ts) :
      Lexes ('"' :: (body ++ '"' :: rest)) (.string (s.map String.ofList) :: ts)

/-- What was read last stands before what is still to come. -/
theorem reverse_cons_append {α : Type} (a : α) (l m : List α) :
    (a :: l).reverse ++ m = l.reverse ++ a :: m := by
  rw [List.reverse_cons, List.append_assoc, List.singleton_append]

/-! ## Characters -/

theorem punctuation?_eq_some {c : Char} {t : Token} (h : punctuation? c = some t) :
    isSpace c = false ∧ c ≠ '"' ∧ isWordChar c = false := by
  unfold punctuation? at h
  split at h
  · decide
  · decide
  · decide
  · decide
  · split at h
    · next hc => subst hc; decide
    · split at h
      · next hc => subst hc; decide
      · cases h

theorem isSpace_of_isWordChar {c : Char} (h : isWordChar c = true) :
    isSpace c = false ∧ c ≠ '"' := by
  constructor
  · apply Bool.eq_false_iff.2
    intro hspace
    simp only [isSpace, Bool.or_eq_true, decide_eq_true_eq] at hspace
    rcases hspace with ((rfl | rfl) | rfl) | rfl <;> simp [isWordChar] at h
  · rintro rfl
    simp [isWordChar] at h

namespace Scanner

/-! ## The scanner -/

/-- What the scanner makes of the rest of a text. -/
def run (s : Scanner) (cs : List Char) : Option (List Token) :=
  (cs.foldlM step s).bind finish?

theorem run_cons (s : Scanner) (c : Char) (cs : List Char) :
    run s (c :: cs) = (step s c).bind fun s => run s cs := by
  simp only [run, List.foldlM_cons, Option.bind_eq_bind, Option.bind_assoc]

theorem run_of_step {s s' : Scanner} {c : Char} (h : step s c = some s') (cs : List Char) :
    run s (c :: cs) = run s' cs := by
  rw [run_cons, h, Option.bind_some]

section

variable {done : List Token} {c : Char}

theorem step_blank (h : isSpace c = true) : step ⟨.between, done⟩ c = some ⟨.between, done⟩ :=
  if_pos h

theorem step_quote : step ⟨.between, done⟩ '"' = some ⟨.inString [], done⟩ := rfl

theorem step_wordChar (h : isWordChar c = true) :
    step ⟨.between, done⟩ c = some ⟨.inWord [c], done⟩ := by
  obtain ⟨hspace, hquote⟩ := isSpace_of_isWordChar h
  change between done c = _
  rw [between, hspace, if_neg Bool.false_ne_true, if_neg hquote, if_pos h]

theorem step_mark {t : Token} (h : punctuation? c = some t) :
    step ⟨.between, done⟩ c = some ⟨.between, t :: done⟩ := by
  obtain ⟨hspace, hquote, hword⟩ := punctuation?_eq_some h
  change between done c = _
  rw [between, hspace, if_neg Bool.false_ne_true, if_neg hquote, hword, if_neg Bool.false_ne_true,
    h]
  rfl

end

/-! ## Words -/

theorem run_word (acc : List Char) (done : List Token) {w : List Char}
    (hw : ∀ c ∈ w, isWordChar c = true) (rest : List Char) :
    run ⟨.inWord acc, done⟩ (w ++ rest) = run ⟨.inWord (w.reverse ++ acc), done⟩ rest := by
  induction w generalizing acc with
  | nil => rfl
  | cons c w ih =>
    have hstep : step ⟨.inWord acc, done⟩ c = some ⟨.inWord (c :: acc), done⟩ :=
      if_pos (hw c List.mem_cons_self)
    rw [List.cons_append, run_of_step hstep, ih _ fun d hd => hw d (List.mem_cons_of_mem c hd),
      reverse_cons_append]

/-- Where a word ends, the scanner goes on as from between two tokens. -/
theorem run_endsWord (acc : List Char) (done : List Token) {rest : List Char}
    (h : EndsWord rest) :
    run ⟨.inWord acc, done⟩ rest = run ⟨.between, .word acc.reverse :: done⟩ rest := by
  cases rest with
  | nil => rfl
  | cons c rest =>
    have hstep : step ⟨.inWord acc, done⟩ c = step ⟨.between, .word acc.reverse :: done⟩ c :=
      if_neg (by rw [h c rfl]; exact Bool.false_ne_true)
    rw [run_cons, run_cons, hstep]

theorem run_between_word (done : List Token) {w rest : List Char} (hne : w ≠ [])
    (hw : ∀ c ∈ w, isWordChar c = true) (hrest : EndsWord rest) :
    run ⟨.between, done⟩ (w ++ rest) = run ⟨.between, .word w :: done⟩ rest := by
  obtain ⟨c, w, rfl⟩ := List.exists_cons_of_ne_nil hne
  rw [List.cons_append, run_of_step (step_wordChar (hw c List.mem_cons_self)),
    run_word _ _ fun d hd => hw d (List.mem_cons_of_mem c hd), run_endsWord _ _ hrest,
    List.reverse_append, List.reverse_reverse]
  rfl

/-- The word at the front of a text, up to where it ends. -/
theorem exists_word {c : Char} (cs : List Char) (h : isWordChar c = true) :
    ∃ w rest, c :: cs = w ++ rest ∧ w ≠ [] ∧ (∀ d ∈ w, isWordChar d = true) ∧ EndsWord rest := by
  refine ⟨(c :: cs).takeWhile isWordChar, (c :: cs).dropWhile isWordChar,
    List.takeWhile_append_dropWhile.symm, ?_, fun d hd => List.mem_takeWhile_imp hd, ?_⟩
  · rw [List.takeWhile_cons_of_pos h]
    exact List.cons_ne_nil _ _
  · intro d hd
    have hnot := List.head?_dropWhile_not isWordChar (c :: cs)
    rw [Option.mem_def.1 hd] at hnot
    simpa using hnot

/-! ## Strings -/

theorem step_plain (acc : List Char) (done : List Token) {c : Char} (hquote : c ≠ '"')
    (hslash : c ≠ '\\') : step ⟨.inString acc, done⟩ c = some ⟨.inString (c :: acc), done⟩ := by
  unfold step
  dsimp only
  rw [if_neg hquote, if_neg hslash]

/-- Up to the quote that ends a string its characters are kept. -/
theorem run_body (acc : List Char) (done : List Token) {body : List Char} (h : Closed body)
    (rest : List Char) :
    run ⟨.inString acc, done⟩ (body ++ rest) =
      run ⟨.inString (body.reverse ++ acc), done⟩ rest := by
  induction h generalizing acc with
  | nil => rfl
  | @plain c cs hquote hslash _ ih =>
    rw [List.cons_append, run_of_step (step_plain acc done hquote hslash), ih,
      reverse_cons_append]
  | @escaped c cs _ ih =>
    have hslash : step ⟨.inString acc, done⟩ '\\' =
        some ⟨.afterBackslash ('\\' :: acc), done⟩ := rfl
    have hstep : step ⟨.afterBackslash ('\\' :: acc), done⟩ c =
        some ⟨.inString (c :: '\\' :: acc), done⟩ := rfl
    rw [List.cons_append, List.cons_append, run_of_step hslash, run_of_step hstep, ih,
      reverse_cons_append, reverse_cons_append]

theorem run_closing (acc : List Char) (done : List Token) (rest : List Char) :
    run ⟨.inString acc, done⟩ ('"' :: rest) =
      (unescape acc.reverse).bind fun s =>
        run ⟨.between, .string (s.map String.ofList) :: done⟩ rest := by
  have hstep : step ⟨.inString acc, done⟩ '"' =
      (unescape acc.reverse).map fun r =>
        ⟨.between, .string (r.map String.ofList) :: done⟩ := rfl
  rw [run_cons, hstep, Option.bind_map]
  rfl

/-- A scanner inside a string finds the quote that ends it. -/
theorem exists_closing {acc : List Char} {done ts : List Token} {cs : List Char}
    (h : run ⟨.inString acc, done⟩ cs = some ts) :
    ∃ body rest, cs = body ++ '"' :: rest ∧ Closed body := by
  -- A backslash takes the character behind it along, so the induction is on the length.
  induction hn : cs.length using Nat.strongRecOn generalizing acc cs with
  | _ n ih =>
    subst hn
    rcases cs with _ | ⟨c, cs⟩
    · cases h
    by_cases hquote : c = '"'
    · subst hquote
      exact ⟨[], cs, rfl, .nil⟩
    by_cases hslash : c = '\\'
    · subst hslash
      rcases cs with _ | ⟨d, cs⟩
      · cases h
      have hnext : run ⟨.inString (d :: '\\' :: acc), done⟩ cs = some ts := h
      obtain ⟨body, rest, rfl, hbody⟩ :=
        ih cs.length (by simp only [List.length_cons]; omega) hnext rfl
      exact ⟨'\\' :: d :: body, rest, rfl, .escaped hbody⟩
    · rw [run_of_step (step_plain acc done hquote hslash)] at h
      obtain ⟨body, rest, rfl, hbody⟩ := ih cs.length (Nat.lt_succ_self _) h rfl
      exact ⟨c :: body, rest, rfl, .plain hquote hslash hbody⟩

/-! ## Texts -/

theorem run_of_lexes {cs : List Char} {ts : List Token} (h : Lexes cs ts) (done : List Token) :
    run ⟨.between, done⟩ cs = some (done.reverse ++ ts) := by
  induction h generalizing done with
  | nil => rw [List.append_nil]; rfl
  | blank hc _ ih => rw [run_of_step (step_blank hc), ih]
  | mark hc _ ih => rw [run_of_step (step_mark hc), ih, reverse_cons_append]
  | word hne hw hrest _ ih =>
    rw [run_between_word _ hne hw hrest, ih, reverse_cons_append]
  | string hs _ ih =>
    rw [run_of_step step_quote, run_body _ _ hs.closed, run_closing, List.append_nil,
      List.reverse_reverse, hs.unescape_eq, Option.bind_some, ih,
      reverse_cons_append]

/-- What begins neither a blank nor a string nor a word is a mark. -/
theorem exists_mark {c : Char} {cs : List Char} {done ts : List Token}
    (h : run ⟨.between, done⟩ (c :: cs) = some ts) (hspace : ¬isSpace c = true)
    (hquote : c ≠ '"') (hword : ¬isWordChar c = true) : ∃ t, punctuation? c = some t := by
  rw [run_cons] at h
  obtain ⟨s, hs, -⟩ := Option.bind_eq_some_iff.1 h
  change between done c = some s at hs
  rw [between, if_neg hspace, if_neg hquote, if_neg hword] at hs
  obtain ⟨t, ht, -⟩ := Option.map_eq_some_iff.1 hs
  exact ⟨t, ht⟩

theorem lexes_of_run {cs : List Char} {done ts : List Token}
    (h : run ⟨.between, done⟩ cs = some ts) : ∃ us, ts = done.reverse ++ us ∧ Lexes cs us := by
  induction hn : cs.length using Nat.strongRecOn generalizing done cs with
  | _ n ih =>
    subst hn
    rcases cs with _ | ⟨c, cs⟩
    · cases h
      exact ⟨[], (List.append_nil _).symm, .nil⟩
    by_cases hspace : isSpace c = true
    · rw [run_of_step (step_blank hspace)] at h
      obtain ⟨us, hts, hus⟩ := ih cs.length (Nat.lt_succ_self _) h rfl
      exact ⟨us, hts, .blank hspace hus⟩
    by_cases hquote : c = '"'
    · subst hquote
      rw [run_of_step step_quote] at h
      obtain ⟨body, rest, rfl, hbody⟩ := exists_closing h
      rw [run_body _ _ hbody, run_closing, List.append_nil, List.reverse_reverse] at h
      obtain ⟨s, hs, h⟩ := Option.bind_eq_some_iff.1 h
      obtain ⟨us, rfl, hus⟩ :=
        ih rest.length (by simp only [List.length_cons, List.length_append]; omega) h rfl
      exact ⟨_, reverse_cons_append _ _ _, .string (says_of_unescape hbody hs) hus⟩
    by_cases hword : isWordChar c = true
    · obtain ⟨w, rest, hsplit, hne, hw, hrest⟩ := exists_word cs hword
      rw [hsplit, run_between_word done hne hw hrest] at h
      have hshorter : rest.length < (c :: cs).length := by
        rw [hsplit, List.length_append]
        have := List.length_pos_iff.2 hne
        omega
      obtain ⟨us, rfl, hus⟩ := ih rest.length hshorter h rfl
      exact ⟨.word w :: us, reverse_cons_append _ _ _, hsplit ▸ .word hne hw hrest hus⟩
    · obtain ⟨t, ht⟩ := exists_mark h hspace hquote hword
      rw [run_of_step (step_mark ht)] at h
      obtain ⟨us, rfl, hus⟩ := ih cs.length (Nat.lt_succ_self _) h rfl
      exact ⟨t :: us, reverse_cons_append _ _ _, .mark ht hus⟩

end Scanner

theorem tokens?_eq_some_iff {cs : List Char} {ts : List Token} :
    tokens? cs = some ts ↔ Lexes cs ts := by
  constructor
  · intro h
    obtain ⟨us, rfl, hus⟩ := Scanner.lexes_of_run h
    exact hus
  · exact fun h => Scanner.run_of_lexes h []

end Json
end MarketFeed
