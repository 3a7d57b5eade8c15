import Mathlib.Algebra.GroupWithZero.Nat
import Mathlib.Algebra.Order.BigOperators.Group.Finset
import MarketFeed.Proofs.Binance.Liveness

/-!
# MarketFeed.Proofs.Binance.Delivery

What a stream comes to in a fair history.

* `Leads`, `Live.opens` — a stream that is not within a silent connection opens the feed again.
* `Feed.Finite`, `Live.delivers` — of a feed that offers trades in finitely many openings, the
  consumer finally has all that the openings so far offered.
-/

namespace MarketFeed
namespace Binance

/-! ## The next opening -/

/-- How many times a stream has to go on at most, but for the next, until it opens the feed: a
connection has to be read to its end. -/
inductive Leads : Stage → Nat → Prop where
  | pacing : Leads .pacing 0
  | pausing (due : Nat) : Leads (.pausing due) 1
  | failing (due : Nat) : Leads (.opening due none) 2
  | opening {due m : Nat} {f : Frames} (hend : f.EndsAt m) :
      Leads (.opening due (some f)) (2 * m + 3)
  | reading {n m resume : Nat} {f : Frames} (hsound : f.Sound n) (hend : f.EndsAt m) :
      Leads (.reading f n resume) (2 * (m - n) + 2)
  | sending {n m : Nat} {f : Frames} {trade : Trade} (hsound : f.Sound n) (hend : f.EndsAt m) :
      Leads (.sending trade f n) (2 * (m - n) + 3)

/-- A sound part of a connection goes on or is at the end. -/
theorem Frames.Sound.busy {f : Frames} {n m : Nat} (h : f.Sound n) (hend : f.EndsAt m) :
    f.item n ≠ none ∨ f.closes = true := by
  rcases Nat.lt_or_eq_of_le (hend.sound_le h) with hlt | rfl
  · obtain ⟨x, hx, -⟩ := hend.1 n hlt
    exact .inl (by rw [hx]; exact Option.some_ne_none _)
  · rcases hend.2 with ⟨x, hx, -⟩ | ⟨-, hcloses⟩
    · exact .inl (by rw [hx]; exact Option.some_ne_none _)
    · exact .inr hcloses

theorem Leads.busy {stage : Stage} {r : Nat} (h : Leads stage r) : stage.Busy := by
  cases h with
  | reading hsound hend => exact hsound.busy hend
  | _ => exact trivial

/-- A stream that goes on either opens the feed or has less before it until it does. -/
theorem Leads.goes {now r : Nat} {c c' : Connector} {s s' : Stream} (h : Leads s.stage r)
    (hg : StreamGoes now c s s' c') :
    turnOf now c s' = some (now, .opened c.openings) ∨
      ∃ r', r' < r ∧ Leads s'.stage r' ∧
        (turnOf now c s' = none ∨ turnOf now c s' = some (now, .ended) ∧ 1 < r) := by
  cases hg with
  | opens hst hgate hs' => subst hs'; exact .inl rfl
  | connects hst hdue hs' =>
    rw [hst] at h
    subst hs'
    cases h with
    | @opening _ m _ hend =>
      exact .inr ⟨2 * (m - 0) + 2, by omega, .reading (Frames.sound_zero _) hend, .inl rfl⟩
  | fails hst hdue hs' =>
    rw [hst] at h
    subst hs'
    cases h with
    | failing => exact .inr ⟨1, by omega, .pausing _, .inr ⟨rfl, by omega⟩⟩
  | ends hst hdue hlast hs' =>
    rw [hst] at h
    subst hs'
    cases h with
    | reading => exact .inr ⟨1, by omega, .pausing _, .inr ⟨rfl, by omega⟩⟩
  | skips hst hdue hx hgood htrade hs' =>
    rw [hst] at h
    subst hs'
    cases h with
    | reading hsound hend =>
      have hsucc := hsound.succ hx hgood
      have hle := hend.sound_le hsucc
      exact .inr ⟨_, by omega, .reading hsucc hend, .inl rfl⟩
  | reads hst hdue hx hgood htrade hs' =>
    rw [hst] at h
    subst hs'
    cases h with
    | reading hsound hend =>
      have hsucc := hsound.succ hx hgood
      have hle := hend.sound_le hsucc
      exact .inr ⟨_, by omega, .sending hsucc hend, .inl rfl⟩
  | sends hst hopen hroom hs' =>
    rw [hst] at h
    subst hs'
    cases h with
    | sending hsound hend => exact .inr ⟨_, by omega, .reading hsound hend, .inl rfl⟩
  | resumes hst hdue hs' =>
    rw [hst] at h
    subst hs'
    cases h with
    | pausing => exact .inr ⟨0, by omega, .pacing, .inl rfl⟩

/-- Where all openings come to an end, a stream is always on its way to the next one. -/
theorem Standing.leads {feed : Feed} {delay now : Nat} {symbol : String} {stage : Stage}
    {ts : List (Nat × Turn)} {l : List Trade} (h : Standing feed delay symbol now stage ts l)
    (hends : ∀ k f, (feed.opening k symbol).frames = some f → ∃ m, f.EndsAt m)
    (hne : stage ≠ .ended) : ∃ r, Leads stage r := by
  cases h with
  | pacing => exact ⟨_, .pacing⟩
  | @opening ts l due time k frames _ _ hframes =>
    cases frames with
    | none => exact ⟨_, .failing due⟩
    | some f =>
      obtain ⟨m, hm⟩ := hends k f hframes
      exact ⟨_, .opening hm⟩
  | reading _ _ hframes hsound =>
    obtain ⟨m, hm⟩ := hends _ _ hframes
    exact ⟨_, .reading hsound hm⟩
  | sending _ _ hframes hsound hx hgood _ =>
    obtain ⟨m, hm⟩ := hends _ _ hframes
    exact ⟨_, .sending (hsound.succ hx hgood) hm⟩
  | pausing => exact ⟨_, .pausing _⟩
  | ended => exact absurd rfl hne

section

variable {config : Config} {feed : Feed} {id : Nat} {t : Nat → Timed Connector} {e : Nat → Event}
  {symbol : String} {stage : Stage} {ts : List (Nat × Turn)} {all : List Trade} {i r : Nat}

/-- A stream opens the feed again; if it is between two connections, it does this next. -/
theorem Live.opens (hl : Live config feed id t e) (h : At id t e symbol stage ts all i)
    (hleads : Leads stage r) :
    ∃ j ends time k, i ≤ j ∧
      turns id (incidents t e j) = ts ++ ends ++ [(time, Turn.opened k)] ∧
      (∀ p ∈ ends, p.2 = .ended) ∧ (r ≤ 1 → ends = []) := by
  induction r using Nat.strongRecOn generalizing stage ts all i with
  | _ r ih =>
    obtain ⟨j, hj, hat, hevent⟩ := hl.goes_on h hleads.busy
    obtain ⟨s, s', hs, hst, hg, hat'⟩ := hl.at_goes hat hevent
    rw [← hst] at hleads
    rcases hleads.goes hg with hturn | ⟨r', hlt, hleads', hturn⟩
    · rw [hturn] at hat'
      exact ⟨j + 1, [], _, _, by omega, by rw [hat'.1, List.append_nil]; rfl, by simp, by simp⟩
    · obtain ⟨m, ends, time, k, hm, hturns, hends, hnone⟩ := ih r' hlt hat' hleads'
      rcases hturn with hturn | ⟨hturn, hmany⟩
      · rw [hturn, Option.toList_none, List.append_nil] at hturns
        exact ⟨m, ends, time, k, by omega, hturns, hends, fun hr => hnone (by omega)⟩
      · rw [hturn, Option.toList_some] at hturns
        refine ⟨m, ((t j).now, .ended) :: ends, time, k, by omega, ?_, ?_, by omega⟩
        · rw [hturns]
          simp
        · intro p hp
          rcases List.mem_cons.1 hp with rfl | hp
          · rfl
          · exact hends p hp

theorem Live.at_of_stream? {s : Stream} (hs : (t i).world.stream? id = some s) :
    At id t e s.symbol s.stage (turns id (incidents t e i)) (accepted id (incidents t e i)) i :=
  ⟨rfl, rfl, s, hs, rfl, rfl⟩

/-- An end of a connection, or an attempt that failed, is followed by an opening as the next turn,
when the delay has passed. -/
theorem Live.opens_after_end (hl : Live config feed id t e) {time : Nat}
    (hlast : (turns id (incidents t e i)).getLast? = some (time, .ended)) :
    ∃ j start k, i ≤ j ∧ time + (t i).world.reconnectDelay ≤ start ∧
      turns id (incidents t e j) = turns id (incidents t e i) ++ [(start, Turn.opened k)] := by
  obtain ⟨s, hs⟩ : ∃ s, (t i).world.stream? id = some s := by
    cases hs : (t i).world.stream? id with
    | some s => exact ⟨s, rfl⟩
    | none =>
      rw [((hl.found i).absent id hs).2.2] at hlast
      cases hlast
  have hstanding := ((hl.found i).present id s hs).standing
  obtain ⟨r, hr, hleads⟩ : ∃ r, r ≤ 1 ∧ Leads s.stage r := by
    generalize turns id (incidents t e i) = ts, accepted id (incidents t e i) = all
      at hlast hstanding
    generalize hstage : s.stage = stage at hstanding
    cases hstanding with
    | pacing => exact ⟨0, by omega, .pacing⟩
    | pausing => exact ⟨1, by omega, .pausing _⟩
    | ended => exact absurd hstage (hl.opened i s hs).2
    | _ =>
      rw [List.getLast?_concat] at hlast
      cases hlast
  obtain ⟨j, ends, start, k, hj, hturns, -, hnone⟩ := hl.opens (Live.at_of_stream? hs) hleads
  rw [hnone hr, List.append_nil] at hturns
  obtain ⟨s', hs', -⟩ := hl.stream?_of_le hj hs
  refine ⟨j, start, k, hj, ?_, hturns⟩
  have htrail := (hl.found j).present id s' hs'
  have halternates := htrail.alternates
  rw [hturns] at halternates
  rw [(hl.found i).ledger.reconnectDelay (hl.found j).ledger]
  exact (halternates.before_opened _ hlast).2

/-- When all openings come to an end, there is always another one. -/
theorem Live.opens_for_ever (hl : Live config feed id t e) {s : Stream}
    (hs : (t i).world.stream? id = some s)
    (hends : ∀ k f, (feed.opening k s.symbol).frames = some f → ∃ m, f.EndsAt m) (n : Nat) :
    ∃ j, i ≤ j ∧ n ≤ (numbers (turns id (incidents t e j))).length := by
  induction n with
  | zero => exact ⟨i, Nat.le_refl i, Nat.zero_le _⟩
  | succ n ih =>
    obtain ⟨j, hj, hn⟩ := ih
    obtain ⟨s', hs', hsymbol⟩ := hl.stream?_of_le hj hs
    rw [← hsymbol] at hends
    obtain ⟨r, hleads⟩ :=
      ((hl.found j).present id s' hs').standing.leads hends (hl.opened j s' hs').2
    obtain ⟨m, ends, time, k, hm, hturns, -⟩ := hl.opens (Live.at_of_stream? hs') hleads
    refine ⟨m, by omega, ?_⟩
    rw [hturns, numbers_opened, numbers_append, List.length_append, List.length_append]
    exact Nat.succ_le_succ (Nat.le_trans hn (Nat.le_add_right _ _))

end

/-! ## A feed that comes to an end -/

/-- A feed whose first `n` connections have a last item, and whose later openings offer nothing. -/
structure Feed.Finite (feed : Feed) (symbol : String) (n : Nat) : Prop where
  items : ∀ k < n, ∀ f, (feed.opening k symbol).frames = some f → ∃ m, f.item m = none
  rest : ∀ k, n ≤ k → ∀ l, (feed.opening k symbol).Part l → l = []

theorem Frames.Sound.le_of_none {f : Frames} {n m : Nat} (h : f.Sound n)
    (hnone : f.item m = none) : n ≤ m := by
  rcases Nat.lt_or_ge m n with hlt | hle
  · obtain ⟨x, hx, -⟩ := h m hlt
    rw [hnone] at hx
    cases hx
  · exact hle

theorem AllOver.length_le {o : Nat → Opening} {g : Nat → Nat}
    (hg : ∀ k l, (o k).Part l → l.length ≤ g k) {os : List Opening} {l : List Trade}
    (h : AllOver os l) {ks : List Nat} (hks : ks.map o = os) : l.length ≤ (ks.map g).sum := by
  induction h generalizing ks with
  | nil => exact Nat.zero_le _
  | snoc _ ho ih =>
    obtain ⟨ks', last, rfl, hks', hlast⟩ := List.map_eq_append_iff.1 hks
    obtain ⟨k, rfl, rfl⟩ := List.map_eq_singleton_iff.1 hlast
    rw [List.length_append, List.map_append, List.sum_append, List.map_singleton,
      List.sum_singleton]
    exact Nat.add_le_add (ih hks') (hg k _ ho.part)

theorem Told.length_le {o : Nat → Opening} {g : Nat → Nat}
    (hg : ∀ k l, (o k).Part l → l.length ≤ g k) {ks : List Nat} {l : List Trade}
    (h : Told (ks.map o) l) : l.length ≤ (ks.map g).sum := by
  generalize hos : ks.map o = os at h
  cases h with
  | ended h => exact h.length_le hg hos
  | within h ho =>
    obtain ⟨ks', last, rfl, hks', hlast⟩ := List.map_eq_append_iff.1 hos
    obtain ⟨k, rfl, rfl⟩ := List.map_eq_singleton_iff.1 hlast
    rw [List.length_append, List.map_append, List.sum_append, List.map_singleton,
      List.sum_singleton]
    exact Nat.add_le_add (h.length_le hg hks') (hg k _ ho)

/-- The openings of a finite feed never offer more than so many trades. -/
theorem Feed.Finite.bounded {feed : Feed} {symbol : String} {n : Nat} (h : feed.Finite symbol n) :
    ∃ bound, ∀ ts l, (numbers ts).Pairwise (· < ·) → Told (openingsOf feed symbol ts) l →
      l.length ≤ bound := by
  have hmost : ∀ k, ∃ m, (∀ l, (feed.opening k symbol).Part l → l.length ≤ m) ∧
      (n ≤ k → m = 0) := by
    intro k
    rcases Nat.lt_or_ge k n with hk | hk
    · cases hf : (feed.opening k symbol).frames with
      | none =>
        refine ⟨0, fun l hl => ?_, fun _ => rfl⟩
        exact Nat.le_of_eq (List.length_eq_zero_iff.2 ((Opening.part_of_none hf).1 hl))
      | some f =>
        obtain ⟨m, hm⟩ := h.items k hk f hf
        refine ⟨m, fun l hl => ?_, fun hle => absurd hk (Nat.not_lt.2 hle)⟩
        obtain ⟨i, hsound, rfl⟩ := (Opening.part_of_some hf).1 hl
        exact Nat.le_trans (f.length_trades_le i) (hsound.le_of_none hm)
    · refine ⟨0, fun l hl => ?_, fun _ => rfl⟩
      exact Nat.le_of_eq (List.length_eq_zero_iff.2 (h.rest k hk l hl))
  choose g hg hzero using hmost
  refine ⟨∑ k ∈ Finset.range n, g k, fun ts l hincreasing htold => ?_⟩
  have hnodup : (numbers ts).Nodup := hincreasing.imp Nat.ne_of_lt
  calc l.length ≤ ((numbers ts).map g).sum := htold.length_le hg
    _ = ∑ k ∈ (numbers ts).toFinset, g k := (List.sum_toFinset g hnodup).symm
    _ ≤ ∑ k ∈ Finset.range n, g k := by
      refine Finset.sum_le_sum_of_ne_zero fun k _ hk => ?_
      rw [Finset.mem_range]
      exact Nat.lt_of_not_le fun hle => hk (hzero k hle)

section

variable {config : Config} {feed : Feed} {id : Nat} {t : Nat → Timed Connector} {e : Nat → Event}
  {symbol : String} {stage : Stage} {ts : List (Nat × Turn)} {all : List Trade} {s : Stream}
  {i n m : Nat} {f : Frames}

/-- A trade that waits for room is accepted at some time. -/
theorem Live.not_sending (hl : Live config feed id t e)
    (hall : ∀ j, i ≤ j → accepted id (incidents t e j) = all) {trade : Trade} :
    ¬ At id t e symbol (.sending trade f n) ts all i := by
  intro h
  obtain ⟨j, hj, hat, hevent⟩ := hl.goes_on h trivial
  obtain ⟨s, s', -, hst, hg, hat'⟩ := hl.at_goes hat hevent
  have hsame := hat'.2.1
  rw [hall (j + 1) (by omega)] at hsame
  generalize (t (j + 1)).world = c' at hg
  cases hg with
  | sends hst₀ _ _ hs' =>
    subst hs'
    rw [List.drop_left] at hsame
    simp at hsame
  | opens hst₀ | connects hst₀ | fails hst₀ | ends hst₀ | skips hst₀ | reads hst₀ | resumes hst₀ =>
    rw [hst] at hst₀
    cases hst₀

/-- When no trade is accepted any more, the connection has no further one. -/
theorem Live.trades_eq (hl : Live config feed id t e) {resume : Nat}
    (hall : ∀ j, i ≤ j → accepted id (incidents t e j) = all)
    (h : At id t e symbol (.reading f n resume) ts all i) (hsound : f.Sound m) (hle : n ≤ m) :
    f.trades m = f.trades n := by
  induction hd : m - n generalizing n resume ts i with
  | zero => rw [show n = m by omega]
  | succ d ih =>
    obtain ⟨x, hx, hgood⟩ := hsound n (by omega)
    have hsome : f.item n ≠ none := by
      rw [hx]
      exact Option.some_ne_none x
    obtain ⟨j, hj, hat, hevent⟩ := hl.goes_on h (.inl hsome)
    obtain ⟨s, s', -, hst, hg, hat'⟩ := hl.at_goes hat hevent
    have hall' : ∀ k, j + 1 ≤ k → accepted id (incidents t e k) = all :=
      fun k hk => hall k (by omega)
    have hsame := hat'.2.1
    rw [hall' (j + 1) (Nat.le_refl _)] at hsame
    rw [← hsame] at hat'
    generalize (t (j + 1)).world = c' at hg
    cases hg with
    | ends hst₀ _ hlast _ =>
      rw [hst] at hst₀
      cases hst₀
      rcases hlast with ⟨y, hy, hbad⟩ | ⟨hnone, -⟩
      · rw [hx] at hy
        cases hy
        rw [hgood] at hbad
        cases hbad
      · exact absurd hnone hsome
    | skips hst₀ _ hx₀ _ htrade hs' =>
      rw [hst] at hst₀
      cases hst₀
      subst hs'
      rw [← Frames.trades_skip hx₀ htrade]
      exact ih hall' hat' (by omega) (by omega)
    | reads hst₀ _ _ _ _ hs' =>
      subst hs'
      exact absurd hat' (hl.not_sending hall')
    | opens hst₀ | connects hst₀ | fails hst₀ | sends hst₀ | resumes hst₀ =>
      rw [hst] at hst₀
      cases hst₀

/-- When no trade is accepted any more, all trades of the openings have been. -/
theorem Live.whole (hl : Live config feed id t e) (hs : (t i).world.stream? id = some s)
    (hall : ∀ j, i ≤ j → accepted id (incidents t e j) = all) :
    Whole (openingsOf feed s.symbol (turns id (incidents t e i))) all := by
  have hat := Live.at_of_stream? (e := e) hs
  have hstanding := ((hl.found i).present id s hs).standing
  have hne := (hl.opened i s hs).2
  rw [hall i (Nat.le_refl i)] at hat hstanding
  generalize turns id (incidents t e i) = ts at hat hstanding
  generalize s.stage = stage at hat hstanding hne
  cases hstanding with
  | pacing h => exact h.whole
  | pausing h =>
    rw [openingsOf_ended]
    exact h.whole
  | @opening ts _ due time k frames h _ hframes =>
    rw [openingsOf_opened, ← List.append_nil all]
    refine h.whole.snoc ?_
    cases frames with
    | none => exact Opening.Over.all ((Opening.over_of_none hframes).2 rfl)
    | some f =>
      obtain ⟨j, hj, hat₁, hevent⟩ := hl.goes_on hat trivial
      obtain ⟨s₁, s', -, hst, hg, hat'⟩ := hl.at_goes hat₁ hevent
      have hall' : ∀ k, j + 1 ≤ k → accepted id (incidents t e k) = all :=
        fun k hk => hall k (by omega)
      have hsame := hat'.2.1
      rw [hall' (j + 1) (Nat.le_refl _)] at hsame
      rw [← hsame] at hat'
      have hst' : s'.stage = .reading f 0 (t j).now := by
        generalize (t (j + 1)).world = c' at hg
        cases hg with
        | connects hst₀ _ hs' =>
          rw [hst] at hst₀
          cases hst₀
          rw [hs']
        | opens hst₀ | fails hst₀ | ends hst₀ | skips hst₀ | reads hst₀ | sends hst₀
        | resumes hst₀ =>
          rw [hst] at hst₀
          cases hst₀
      rw [hst'] at hat'
      refine ⟨(Opening.part_of_some hframes).2 ⟨0, f.sound_zero, rfl⟩, ?_⟩
      intro l' hpart
      obtain ⟨m, hsound, rfl⟩ := (Opening.part_of_some hframes).1 hpart
      rw [hl.trades_eq hall' hat' hsound (Nat.zero_le m)]
      exact List.prefix_refl _
  | @reading ts _ time k n resume f h _ hframes hsound =>
    rw [openingsOf_opened]
    refine h.whole.snoc ?_
    refine ⟨(Opening.part_of_some hframes).2 ⟨n, hsound, rfl⟩, ?_⟩
    intro l' hpart
    obtain ⟨m, hsound', rfl⟩ := (Opening.part_of_some hframes).1 hpart
    rcases Nat.le_total m n with hle | hle
    · exact f.trades_prefix hle
    · rw [hl.trades_eq hall hat hsound' hle]
  | sending => exact absurd hat (hl.not_sending hall)
  | ended => exact absurd rfl hne

/-- Of a finite feed, no trade is accepted any more from some moment on. -/
theorem Live.accepts_finally (hl : Live config feed id t e)
    (hs : (t i).world.stream? id = some s) (hfinite : feed.Finite s.symbol n) :
    ∃ k, i ≤ k ∧ ∀ j, k ≤ j →
      accepted id (incidents t e j) = accepted id (incidents t e k) := by
  obtain ⟨bound, hbound⟩ := hfinite.bounded
  have hfew : ∀ j, i ≤ j → (accepted id (incidents t e j)).length ≤ bound := by
    intro j hj
    obtain ⟨s', hs', hsymbol⟩ := hl.stream?_of_le hj hs
    have htrail := (hl.found j).present id s' hs'
    exact hbound _ _ htrail.increasing (hsymbol ▸ htrail.standing.told)
  have hbegins : ∀ j k, k ≤ j →
      accepted id (incidents t e k) <+: accepted id (incidents t e j) := by
    intro j k hk
    induction j, hk using Nat.le_induction with
    | base => exact List.prefix_refl _
    | succ j _ ih =>
      rw [incidents_succ, accepted_concat]
      exact ih.trans (List.prefix_append _ _)
  obtain ⟨k, hk, hrest⟩ := eventually_constant
    (f := fun j => bound - (accepted id (incidents t e j)).length) (i := i) (by
      intro j _
      have hle := (hbegins (j + 1) j (Nat.le_succ j)).length_le
      omega)
  refine ⟨k, hk, fun j hj => ((hbegins j k hj).eq_of_length ?_).symm⟩
  have hsame := hrest j hj
  have hj' := hfew j (by omega)
  have hk' := hfew k hk
  omega

/-- Of a finite feed, the consumer has from some moment on all that the openings so far offer. -/
theorem Live.delivers (hl : Live config feed id t e) (hs : (t i).world.stream? id = some s)
    (hfinite : feed.Finite s.symbol n) :
    ∃ k, i ≤ k ∧ ∀ j, k ≤ j →
      Whole (openingsOf feed s.symbol (turns id (incidents t e j)))
        (received id (incidents t e j)) := by
  obtain ⟨k, hk, hall⟩ := hl.accepts_finally hs hfinite
  obtain ⟨s', hs', -⟩ := hl.stream?_of_le hk hs
  obtain ⟨m, hempty⟩ := hl.queue_empties hs' hall
  refine ⟨max k m, by omega, fun j hj => ?_⟩
  obtain ⟨s₁, hs₁, hsymbol⟩ := hl.stream?_of_le (show i ≤ j by omega) hs
  have hkept := ((hl.found j).present id s₁ hs₁).kept (hl.opened j s₁ hs₁).1
  rw [hempty j (by omega) s₁ hs₁, List.append_nil] at hkept
  have hwhole := hl.whole hs₁ fun l hl => (hall l (by omega)).trans (hall j (by omega)).symm
  rwa [hkept, hsymbol] at hwhole

end
end Binance
end MarketFeed
