import MarketFeed.CommandLine.Invocation
import Mathlib.Data.List.Basic

/-!
# MarketFeed.Proofs.CommandLine.Backfill

Every backfill into memory can be asked for.

* `assignment`, `ofText_assignment` — an option with its value in one argument.
* `scan_assignments` — such options for each of some values.
* `read_backfill` — the arguments for any symbols and intervals.
-/

namespace MarketFeed
namespace CommandLine

/-! ## One option -/

/-- An option with its value in one argument. -/
def assignment (name value : String) : String := "--" ++ name ++ "=" ++ value

theorem ofText_assignment {name : String} (hname : name.toList ≠ []) (hequals : '=' ∉ name.toList)
    (value : String) : Argument.ofText (assignment name value) = .long name (some value) := by
  obtain ⟨c, cs, hcs⟩ := List.exists_cons_of_ne_nil hname
  have htext : (assignment name value).toList =
      '-' :: '-' :: c :: (cs ++ '=' :: value.toList) := by
    simp [assignment, String.toList_append, hcs]
  have hends : ∀ d ∈ c :: cs, decide (d ≠ '=') = true := by
    intro d hd
    rw [decide_eq_true_eq]
    rintro rfl
    exact hequals (hcs ▸ hd)
  have htake : (c :: (cs ++ '=' :: value.toList)).takeWhile (· ≠ '=') = name.toList := by
    rw [← List.cons_append, List.takeWhile_append_of_pos hends, hcs]
    simp
  have hdrop : (c :: (cs ++ '=' :: value.toList)).dropWhile (· ≠ '=') = '=' :: value.toList := by
    rw [← List.cons_append, List.dropWhile_append_of_pos hends]
    simp
  rw [Argument.ofText, htext]
  simp only [Argument.longOf, htake, hdrop, String.ofList_toList]

/-- A text without commas is one value. -/
theorem parts_of_not_mem {text : String} (h : ',' ∉ text.toList) : Flag.parts text = [text] := by
  obtain ⟨cs, rfl⟩ : ∃ cs, text = String.ofList cs := ⟨text.toList, by simp⟩
  rw [String.toList_ofList] at h
  unfold Flag.parts
  rw [String.toList_ofList]
  dsimp only
  suffices hfold : List.foldr _ [[]] cs = [cs] by rw [hfold, List.map_singleton]
  induction cs with
  | nil => rfl
  | cons c cs ih =>
    have hc : ¬ c = ',' := fun hc => h (hc ▸ List.mem_cons_self)
    rw [List.foldr_cons, ih fun hmem => h (List.mem_cons_of_mem c hmem)]
    exact if_neg hc

/-! ## Many options -/

/-- Options of a list, each with one value. -/
theorem scan_assignments {r : Grammar} {f : Flag} (hfind : r.long? f.name = some f)
    (hcommands : r.commands = []) (hname : f.name.toList ≠ []) (hequals : '=' ∉ f.name.toList)
    (hother : f.name ≠ "help" ∧ f.name ≠ "version") (harity : f.arity = .list)
    {values : List String} (hvalues : ∀ v ∈ values, ',' ∉ v.toList ∧ f.content.fault? v = none)
    (rest : List String) (given : List (String × List String)) :
    r.scan (values.map (assignment f.name) ++ rest) false ⟨given, none⟩ =
      r.scan rest false ⟨given ++ values.map fun v => (f.name, [v]), none⟩ := by
  induction values generalizing given with
  | nil => simp
  | cons v values ih =>
    obtain ⟨⟨hcomma, hfault⟩, hmore⟩ := List.forall_mem_cons.1 hvalues
    have hadd : r.scanLong f.name (some v) ⟨given, none⟩ =
        .ok ⟨given ++ [(f.name, [v])], none⟩ := by
      have hparts : f.values v = [v] := by
        rw [Flag.values, harity]
        exact parts_of_not_mem hcomma
      simp [Grammar.scanLong, hfind, harity, Given.take, Given.settle, Except.bind, Given.add,
        hother.1, hother.2, hparts, Given.fault?, hfault]
    rw [List.map_cons, List.cons_append, Grammar.scan, hcommands, ofText_assignment hname hequals]
    simp only [List.contains_nil, Bool.and_false, Bool.false_eq_true, if_false, hadd]
    change r.scan _ false _ = _
    rw [ih hmore]
    simp

/-! ## A backfill -/

/-- The arguments that ask for a backfill into memory. -/
def backfillArguments (symbols intervals : List String) : List String :=
  "--memory" :: "backfill" ::
    (symbols.map (assignment "symbols") ++ intervals.map (assignment "intervals"))

/-- What is given by these arguments. -/
def backfillGiven (symbols intervals : List String) : Given :=
  ⟨symbols.map (fun s => ("symbols", [s])) ++ intervals.map fun i => ("intervals", [i]), none⟩

theorem scan_backfill {symbols texts : List String} (hsymbols : ∀ s ∈ symbols, ',' ∉ s.toList)
    (htexts : ∀ t ∈ texts, ',' ∉ t.toList ∧ Content.interval.fault? t = none) :
    backfillGrammar.scan (symbols.map (assignment "symbols") ++
      texts.map (assignment "intervals")) false .empty =
        .ok (backfillGiven symbols texts, none) := by
  have hfirst := scan_assignments (r := backfillGrammar) (f := symbolsFlag true) rfl rfl (by decide)
    (by decide) (by decide) rfl (fun s hs => ⟨hsymbols s hs, rfl⟩)
    (texts.map (assignment "intervals")) []
  have hsecond := scan_assignments (r := backfillGrammar) (f := intervalsFlag) rfl rfl (by decide)
    (by decide) (by decide) rfl htexts [] (symbols.map fun s => ("symbols", [s]))
  rw [List.append_nil] at hsecond
  exact hfirst.trans (hsecond.trans rfl)

theorem all_symbols (symbols texts : List String) :
    (backfillGiven symbols texts).all "symbols" = symbols := by
  simp [backfillGiven, Given.all, List.filter_append, List.filter_map, Function.comp_def,
    List.flatMap_map, List.filter_true, List.filter_false]

theorem all_intervals (symbols texts : List String) :
    (backfillGiven symbols texts).all "intervals" = texts := by
  simp [backfillGiven, Given.all, List.filter_append, List.filter_map, Function.comp_def,
    List.flatMap_map, List.filter_true, List.filter_false]

/-- Nothing is missing, and the environment adds nothing. -/
theorem complete_backfill {symbols texts : List String} (hsymbols : symbols ≠ [])
    (environment : List (String × String)) :
    backfillGrammar.complete environment (backfillGiven symbols texts) =
      .ok (backfillGiven symbols texts) := by
  obtain ⟨s, symbols, rfl⟩ := List.exists_cons_of_ne_nil hsymbols
  rfl

/-- Every list of symbols can be asked for with every list of intervals. -/
theorem read_backfill {symbols texts : List String} {intervals : List Interval}
    (hsymbols : symbols ≠ []) (hplain : ∀ s ∈ symbols, ',' ∉ s.toList)
    (htexts : texts ≠ []) (hcommas : ∀ t ∈ texts, ',' ∉ t.toList)
    (hparsed : texts.map Interval.parse = intervals.map .ok) :
    Invocation.read [] (backfillArguments symbols texts) =
      .ok ⟨none, true, none, none, .backfill symbols intervals 500⟩ := by
  have hprogram (rest : List String) :
      programGrammar.scan ("--memory" :: "backfill" :: rest) false .empty =
        .ok (⟨[("memory", [])], none⟩, some ("backfill", rest)) := rfl
  have hparse : ∀ t ∈ texts, ∃ i, Interval.parse t = .ok i := by
    intro t ht
    obtain ⟨i, -, hi⟩ := List.mem_map.1 (hparsed ▸ List.mem_map_of_mem ht)
    exact ⟨i, hi.symm⟩
  have hfault : ∀ t ∈ texts, ',' ∉ t.toList ∧ Content.interval.fault? t = none := by
    intro t ht
    obtain ⟨i, hi⟩ := hparse t ht
    exact ⟨hcommas t ht, by simp [Content.fault?, hi]⟩
  have hintervals : (backfillGiven symbols texts).intervals = intervals := by
    have hhas : (backfillGiven symbols texts).has "intervals" = true := by
      obtain ⟨t, texts, rfl⟩ := List.exists_cons_of_ne_nil htexts
      simp [backfillGiven, Given.has]
    have hread := congrArg (List.filterMap Except.toOption) hparsed
    rw [List.filterMap_map, List.filterMap_map] at hread
    rw [Given.intervals, if_pos hhas, all_intervals]
    exact hread.trans (by simp [Function.comp_def, Except.toOption])
  have hlookback : (backfillGiven symbols texts).lookback = 500 := by
    have hnone : (backfillGiven symbols texts).get? "lookback" = none := by
      simp [Given.get?, Given.all, backfillGiven, List.filter_map, Function.comp_def]
    simp [Given.lookback, Given.number, hnone]
  have hcommand : Command.read [] "backfill" (symbols.map (assignment "symbols") ++
      texts.map (assignment "intervals")) = .ok (.backfill symbols intervals 500) := by
    rw [Command.read, if_neg (by decide), if_pos rfl]
    simp only [scan_backfill hplain hfault, Except.bind, complete_backfill hsymbols, Except.map]
    rw [Given.backfill, all_symbols, hintervals, hlookback]
  rw [Invocation.read, backfillArguments, hprogram]
  change (Command.read [] "backfill" _).bind _ = _
  rw [hcommand]
  rfl

end CommandLine
end MarketFeed
