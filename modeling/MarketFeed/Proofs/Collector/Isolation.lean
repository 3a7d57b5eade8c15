import MarketFeed.Proofs.Collector.Clocked

/-!
# MarketFeed.Proofs.Collector.Isolation

Loops of a collector on a virtual clock that have nothing to do with each other's failures.

* `Awaits` — where a loop may be between a failure and its next attempt, and until when;
  `Awaits.goes`, `Awaits.waits` — it stays there, or makes the attempt when it is due.
* `next_call` — the next call of the loop is that attempt.
* `loops_isolated` — what the source answers in other parts changes nothing of what a loop does, and
  a loop that fails tries again after its pause.
-/

namespace MarketFeed
namespace Collector
namespace World

section

variable {ι ρ τ : Type}

/-- The call with which a loop begins again. -/
inductive Begins (config : Config ι) : Subject ι → Call ι τ → Prop where
  | fetch {instrument : ι} {interval : Interval} :
      Begins config (.history instrument interval)
        (.fetch instrument (.latest interval config.lookback))
  | openStream {instrument : ι} {stream : Option Nat} :
      Begins config (.trades instrument) (.openStream instrument stream)

/-- Where a loop may be at a time before it begins again when that is due. -/
inductive Awaits (config : Config ι) (due : Nat) : Work ι → Nat → Prop where
  | finished {instrument : ι} {interval : Interval} {result : Except Failure Nat} {now : Nat}
      (h : now + config.pollInterval.toNanos = due) :
      Awaits config due (.poll instrument interval (.passing (.finished result))) now
  | pausing {instrument : ι} {interval : Interval} {now : Nat} (h : now ≤ due) :
      Awaits config due (.poll instrument interval (.pausing due)) now
  | starting {instrument : ι} {interval : Interval} :
      Awaits config due (.poll instrument interval .starting) due
  | resting {instrument : ι} {now : Nat} (h : now ≤ due) :
      Awaits config due (.stream instrument (.pausing due)) now
  | opening {instrument : ι} : Awaits config due (.stream instrument .starting) due

variable {V : Venue ι ρ τ} {A : Source ι ρ τ} {O : Outlets} {config : Config ι}
  {C : Schedule ι τ} {now time due id : Nat} {work work' : Work ι} {calls : List (Call ι τ)}
  {l : Ledger ι} {w : Watched (Ledger ι) ι τ} {t : Moment ι τ}
  {p q h : List (Episode ι τ)} {x : Episode ι τ}

namespace Awaits

theorem le_due (h : Awaits config due work now) : now ≤ due := by
  cases h with
  | finished h => exact h ▸ Nat.le_add_right _ _
  | pausing h | resting h => exact h
  | starting | opening => exact Nat.le_refl _

/-- A loop that goes on makes no call before it begins again, which it does when that is due. -/
theorem goes {S : Surroundings (Ledger ι) ι ρ τ} (h : Awaits config due work now)
    (hg : WorkGoes V S now w work calls l work') (hconfig : w.config = config)
    (hgoing : w.stopped = false) :
    calls = [] ∧ Awaits config due work' now ∨
      now = due ∧ ∃ c s, calls = [c] ∧ subject? work = some s ∧ Begins config s c := by
  subst hconfig
  cases h with
  | finished h =>
    obtain ⟨⟩ | hg | ⟨⟩ := hg
    cases hg with
    | passes hg => cases hg
    | pauses => exact .inl ⟨rfl, h ▸ .pausing (Nat.le_add_right _ _)⟩
  | pausing h =>
    obtain ⟨⟩ | hg | ⟨⟩ := hg
    cases hg with
    | resumes hdue =>
      obtain rfl := Nat.le_antisymm h hdue
      exact .inl ⟨rfl, .starting⟩
  | starting =>
    obtain ⟨⟩ | hg | ⟨⟩ := hg
    cases hg with
    | stops hstopped => cases hgoing.symm.trans hstopped
    | asks => exact .inr ⟨rfl, _, _, rfl, rfl, .fetch⟩
  | resting h =>
    obtain ⟨⟩ | ⟨⟩ | hg := hg
    cases hg with
    | restarts hdue =>
      obtain rfl := Nat.le_antisymm h hdue
      exact .inl ⟨rfl, .opening⟩
  | opening =>
    obtain ⟨⟩ | ⟨⟩ | hg := hg
    cases hg with
    | stops hstopped => cases hgoing.symm.trans hstopped
    | opens | fails => exact .inr ⟨rfl, _, _, rfl, rfl, .openStream⟩

/-- There is a time up to which it may wait, and at which it can go on. -/
theorem can (V : Venue ι ρ τ) (S : Surroundings (Ledger ι) ι ρ τ) (h : Awaits config due work now) :
    ∃ T, now ≤ T ∧ (∀ time, now ≤ time → time ≤ T → Awaits config due work time) ∧
      ∀ w : Watched (Ledger ι) ι τ, w.stopped = false →
        ∃ calls l work', WorkGoes V S T w work calls l work' := by
  have hsame {work : Work ι} (h : Awaits config due work now) (time : Nat) (hle : now ≤ time)
      (hge : time ≤ now) : Awaits config due work time := Nat.le_antisymm hle hge ▸ h
  cases h with
  | finished h =>
    exact ⟨now, Nat.le_refl _, hsame (.finished h), fun w _ => ⟨_, _, _, .poll .pauses⟩⟩
  | pausing h =>
    exact ⟨due, h, fun _ _ hle => .pausing hle, fun w _ =>
      ⟨_, _, _, .poll (.resumes (Nat.le_refl _))⟩⟩
  | starting =>
    exact ⟨now, Nat.le_refl _, hsame .starting, fun w hgoing => ⟨_, _, _, .poll (.asks hgoing rfl)⟩⟩
  | resting h =>
    exact ⟨due, h, fun _ _ hle => .resting hle, fun w _ =>
      ⟨_, _, _, .stream (.restarts (Nat.le_refl _))⟩⟩
  | @opening instrument =>
    refine ⟨now, Nat.le_refl _, hsame .opening, fun w hgoing => ?_⟩
    cases ho : S.openStream now instrument w.around.1 with
    | mk r l =>
      cases r with
      | ok stream => exact ⟨_, _, _, .stream (.opens hgoing ho)⟩
      | error e => exact ⟨_, _, _, .stream (.fails hgoing ho)⟩

/-- No time passes beyond that. -/
theorem waits {j : Job ι} (h : Awaits config due j.work t.now) (ht : Steady A t)
    (hj : t.world.job? id = some j) (hgoing : t.world.stopped = false) (hle : t.now ≤ time)
    (hrest : ∀ T, t.now ≤ T → T < time → RestsAt V A O t T) : Awaits config due j.work time := by
  obtain ⟨T, hT, hkeep, hcan⟩ := h.can V (A.surroundings O)
  refine hkeep time hle (Nat.le_of_not_lt fun hlt => ?_)
  obtain ⟨calls, l, work', hg⟩ := hcan (later t T).world hgoing
  have hid := id_of_job? hj
  subst hid
  have hmove : Move.goOn j.id ∈ t.world.moves := mem_moves rfl hj
  cases (happens_of_goes (ht.later T).sound hj hg).symm.trans (hrest T hT hlt _ hmove)

end Awaits

/-! ## The next call -/

theorem config_of_clocked (hrun : Clocked V A O config C h t) : t.world.config = config := by
  induction hrun with
  | start =>
    exact start_keeps (P := fun w : Watched (Ledger ι) ι τ => w.config = config) (fun _ h => h)
      (fun _ _ _ _ h => h) rfl
  | moves hist he _ ih =>
    cases occurs_of_happens (steady_of_clocked hist).sound he <;> exact ih
  | stops _ _ _ _ ih | waits _ _ _ _ ih => exact ih

theorem stopped_of_move {m : Move} {t' : Moment ι τ} (ht : Steady A t)
    (he : happens V (A.surroundings O) (.move m) t = some t') :
    t'.world.stopped = t.world.stopped := by
  cases occurs_of_happens ht.sound he <;> rfl

/-- A run cut at an incident. -/
theorem clocked_cut (hrun : Clocked V A O config C h t) (hsplit : h = p ++ x :: q) :
    Clocked V A O config C p x.before ∧ Clocked V A O config C (p ++ [x]) x.after ∧
      (x.after.world.stopped = true → t.world.stopped = true) ∧
      (x.event = .stop ∧ x.after.world.stopped = true ∨
        ∃ m, x.event = .move m ∧
          happens V (A.surroundings O) (.move m) x.before = some x.after) := by
  induction hrun generalizing q with
  | start => exact absurd hsplit.symm (List.append_ne_nil_of_right_ne_nil _ (List.cons_ne_nil _ _))
  | moves hist he hturn ih =>
    rcases concat_eq_append_cons.1 hsplit with ⟨-, rfl, rfl⟩ | ⟨q, -, hsplit⟩
    · exact ⟨hist, .moves hist he hturn, fun hstopped => hstopped, .inr ⟨_, rfl, he⟩⟩
    · obtain ⟨hbefore, hafter, hstays, hx⟩ := ih hsplit
      exact ⟨hbefore, hafter,
        fun h => (stopped_of_move (steady_of_clocked hist) he).trans (hstays h), hx⟩
  | stops hist hstop hgoing hrest ih =>
    rcases concat_eq_append_cons.1 hsplit with ⟨-, rfl, rfl⟩ | ⟨q, -, hsplit⟩
    · exact ⟨hist, .stops hist hstop hgoing hrest, fun hstopped => hstopped, .inl ⟨rfl, rfl⟩⟩
    · obtain ⟨hbefore, hafter, -, hx⟩ := ih hsplit
      exact ⟨hbefore, hafter, fun _ => rfl, hx⟩
  | waits _ _ _ _ ih => exact ih hsplit

/-- A move of any loop leaves a loop that awaits its time so, unless it begins again. -/
theorem Awaits.next {m : Move} {j : Job ι} {t' : Moment ι τ}
    (h : Awaits config due j.work t.now) (hist : Clocked V A O config C p t)
    (he : happens V (A.surroundings O) (.move m) t = some t') (hj : t.world.job? id = some j)
    (hgoing : t.world.stopped = false) :
    (callsBy id ⟨t, .move m, t'⟩ = [] ∧
        ∃ j', t'.world.job? id = some j' ∧ Awaits config due j'.work t.now) ∨
      t.now = due ∧ ∃ c s, callsBy id ⟨t, .move m, t'⟩ = [c] ∧ loop? config id = some s ∧
        Begins config s c := by
  have ht := steady_of_clocked hist
  cases fares_of_happens ht.sound he id with
  | goes he' hj₀ hg heq hj' =>
    cases he'
    cases hj.symm.trans hj₀
    have hcalls : callsBy id ⟨t, .move (.goOn id), t'⟩ = _ :=
      (callsBy_move id).trans ((if_pos rfl).trans (callsAt_of_log (by rw [heq]; rfl)))
    rw [hcalls]
    rcases h.goes hg (config_of_clocked hist) hgoing with ⟨rfl, hnext⟩ | ⟨hdue, c, s, rfl, hs, hb⟩
    · exact .inl ⟨rfl, _, hj', hnext⟩
    · exact .inr ⟨hdue, c, s, rfl, loop_of_clocked hist hj hs, hb⟩
  | halts _ _ hstopped => cases hgoing.symm.trans hstopped
  | begins he' => simp at he'
  | leaves _ hj₀ hover _ =>
    cases hj.symm.trans hj₀
    obtain ⟨i, run, work⟩ := j
    cases h <;> (rcases hover with (hover | hover) <;> cases hover)
  | stays hne hj' =>
    refine .inl ⟨callsBy_of_ne hne ?_, j, hj'.trans hj, h⟩
    rintro ⟨⟩
    cases hgoing.symm.trans (halts_of_halt ht.sound he).1

/-- A loop that awaits the time when it begins again does so then, and makes no call before. -/
theorem next_call (hrun : Clocked V A O config C h t) (hsplit : h = p ++ x :: q)
    (hgoing : t.world.stopped = false) {j : Job ι} (hj : x.after.world.job? id = some j)
    (hawaits : Awaits config due j.work x.after.now) :
    (timed id q = [] ∧ ∃ j', t.world.job? id = some j' ∧ Awaits config due j'.work t.now) ∨
      ∃ c s, (timed id q).head? = some (due, c) ∧ loop? config id = some s ∧ Begins config s c := by
  induction hrun generalizing q with
  | start => exact absurd hsplit.symm (List.append_ne_nil_of_right_ne_nil _ (List.cons_ne_nil _ _))
  | @moves h t t' m hist he _ ih =>
    rw [stopped_of_move (steady_of_clocked hist) he] at hgoing
    rcases concat_eq_append_cons.1 hsplit with ⟨rfl, -, rfl⟩ | ⟨q, rfl, hrest⟩
    · exact .inl ⟨rfl, j, hj, hawaits⟩
    · rw [timed_concat, now_of_move he]
      rcases ih hrest hgoing with ⟨hnone, j₁, hj₁, hawaits₁⟩ | ⟨c, s, hhead, hs⟩
      · rw [hnone, List.nil_append]
        rcases hawaits₁.next hist he hj₁ hgoing with ⟨hcalls, hnext⟩ | ⟨hdue, c, s, hcalls, hs⟩
        · rw [hcalls]
          exact .inl ⟨rfl, hnext⟩
        · rw [hcalls, ← hdue]
          exact .inr ⟨c, s, rfl, hs⟩
      · exact .inr ⟨c, s, by rw [List.head?_append, hhead]; rfl, hs⟩
  | stops => cases hgoing
  | @waits h t time hist hle hrest _ ih =>
    rcases ih hsplit hgoing with ⟨hnone, j₁, hj₁, hawaits₁⟩ | hnext
    · exact .inl ⟨hnone, j₁, hj₁, hawaits₁.waits (steady_of_clocked hist) hj₁ hgoing hle hrest⟩
    · exact .inr hnext

/-- Once the time has come and gone, the loop has begun again. -/
theorem begins_when_due (hrun : Clocked V A O config C (p ++ x :: q) t)
    (hgoing : t.world.stopped = false) {j : Job ι} {s : Subject ι}
    (hj : x.after.world.job? id = some j) (hs : loop? config id = some s)
    (hawaits : Awaits config due j.work x.after.now) (hdue : due < t.now) :
    ∃ c, (timed id q).head? = some (due, c) ∧ Begins config s c := by
  rcases next_call hrun rfl hgoing hj hawaits with ⟨-, j', -, hstill⟩ | ⟨c, s', hhead, hs', hb⟩
  · exact absurd hdue (Nat.not_lt.2 hstill.le_due)
  · cases hs.symm.trans hs'
    exact ⟨c, hhead, hb⟩

/-- After an opening that failed, and after the end of a stream, the loop rests. -/
theorem rests_of_failure {S : Surroundings (Ledger ι) ι ρ τ} {instrument : ι}
    (hg : WorkGoes V S now w work calls l work')
    (hfails : calls = [.openStream instrument none] ∨ ∃ stream, calls = [.dropStream stream]) :
    ∃ i, work' = .stream i (.pausing (now + w.config.streamRestartDelay.toNanos)) := by
  cases hg with
  | pass hg => cases hg <;> simp at hfails
  | poll hg =>
    cases hg with
    | passes hg => cases hg <;> simp at hfails
    | _ => simp at hfails
  | stream hg =>
    cases hg with
    | fails | ends => exact ⟨_, rfl⟩
    | _ => simp at hfails

theorem rests_after_failure {m : Move} {t' : Moment ι τ} {instrument : ι}
    (hist : Clocked V A O config C p t) (he : happens V (A.surroundings O) (.move m) t = some t')
    (hgoing : t'.world.stopped = false)
    (hfails : callsBy id ⟨t, .move m, t'⟩ = [.openStream instrument none] ∨
      ∃ stream, callsBy id ⟨t, .move m, t'⟩ = [.dropStream stream]) :
    ∃ j, t'.world.job? id = some j ∧
      Awaits config (t.now + config.streamRestartDelay.toNanos) j.work t.now := by
  have ht := steady_of_clocked hist
  have hmover : m.mover? = some id := by
    by_contra hne
    simp [callsBy_move, hne] at hfails
  rw [callsBy_move, if_pos hmover] at hfails
  cases m with
  | goOn i =>
    cases hmover
    obtain ⟨j, calls, l, work, hj, hg, heq, hj'⟩ := goes_of_goOn ht.sound he
    rw [callsAt_of_log (by rw [heq]; rfl)] at hfails
    obtain ⟨i, rfl⟩ := rests_of_failure hg hfails
    rw [config_of_clocked hist] at hj'
    exact ⟨_, hj', .resting (Nat.le_add_right _ _)⟩
  | halt i =>
    have hstopped := (halts_of_halt ht.sound he).1
    cases ((stopped_of_move ht he).symm.trans hgoing).symm.trans hstopped
  | finish run => cases hmover

/-- Loops of a collector on a virtual clock, in runs that may differ in what the source answers.

* A loop whose part of the source answers alike in two runs makes the same calls at the same times
  in both, with the same rows, as far as both have come; those to the store and to the downstream
  are among them. This is so for all loops but one where the source fails, or answers otherwise, in
  the part that serves that one alone.
* A loop whose pass failed polls again when the poll interval is over, and a loop whose opening
  failed, or whose stream ended, opens one again when the restart delay is over. It makes no call
  before.

What a part answers may depend on all that was asked of it, where its loops take turns by what they
did there; between parts, any order will do. What the other parts answer may depend on anything. -/
theorem loops_isolated {ι ρ τ : Type} (V : Venue ι ρ τ) (O : Outlets) (config : Config ι)
    (C : Schedule ι τ) :
    (∀ A₁ A₂ h₁ t₁ h₂ t₂, Clocked V A₁ O config C h₁ t₁ → Clocked V A₂ O config C h₂ t₂ →
      ∀ T, T ≤ t₁.now → T ≤ t₂.now → ∀ id s, loop? config id = some s →
        A₁.SameIn (A₁.part s) A₂ →
        (timed id h₁).filter (·.1 < T) = (timed id h₂).filter (·.1 < T)) ∧
    ∀ A p x q t, Clocked V A O config C (p ++ x :: q) t → t.world.stopped = false → ∀ id,
      (∀ instrument interval e, (x.after.world.job? id).map Job.work =
          some (.poll instrument interval (.passing (.finished (.error e)))) →
        x.before.now + config.pollInterval.toNanos < t.now →
        (timed id q).head? = some (x.before.now + config.pollInterval.toNanos,
          .fetch instrument (.latest interval config.lookback))) ∧
      ∀ instrument, loop? config id = some (.trades instrument) →
        (callsBy id x = [.openStream instrument none] ∨
          ∃ stream, callsBy id x = [.dropStream stream]) →
        x.before.now + config.streamRestartDelay.toNanos < t.now →
        ∃ stream, (timed id q).head? = some (x.before.now + config.streamRestartDelay.toNanos,
          .openStream instrument stream) := by
  refine ⟨fun A₁ A₂ h₁ t₁ h₂ t₂ hrun₁ hrun₂ T hT₁ hT₂ id s hs hA =>
    timed_same hA hrun₁ hrun₂ hs rfl hT₁ hT₂, ?_⟩
  intro A p x q t hrun hgoing id
  obtain ⟨hbefore, hafter, hstays, hx⟩ := clocked_cut hrun rfl
  have hafter_going : x.after.world.stopped = false := by
    by_contra hstopped
    cases hgoing.symm.trans (hstays (by simpa using hstopped))
  obtain ⟨m, hm, he⟩ := hx.resolve_left fun hstop => by
    cases hafter_going.symm.trans hstop.2
  have hnow : x.after.now = x.before.now := now_of_move he
  refine ⟨?_, ?_⟩
  · intro instrument interval e hfailed hdue
    obtain ⟨j, hj, hwork⟩ := Option.map_eq_some_iff.1 hfailed
    have hs : loop? config id = some (.history instrument interval) :=
      loop_of_clocked hafter hj (by rw [hwork]; rfl)
    obtain ⟨c, hhead, hb⟩ := begins_when_due hrun hgoing hj hs
      (hwork ▸ .finished (by rw [hnow])) hdue
    cases hb
    exact hhead
  · intro instrument hs hfails hdue
    obtain ⟨t₀, e, t₁⟩ := x
    cases hm
    obtain ⟨j, hj, hawaits⟩ := rests_after_failure hbefore he hafter_going hfails
    obtain ⟨c, hhead, hb⟩ := begins_when_due hrun hgoing hj hs (hnow ▸ hawaits) hdue
    cases hb
    exact ⟨_, hhead⟩

end

/-! ## Runs that were played -/

section

variable {ι ρ τ : Type} (V : Venue ι ρ τ) (A : Source ι ρ τ) (O : Outlets) (C : Schedule ι τ)

/-- A move, or the passing of time, where a run that is never stopped may go on so. -/
def tick (e : Move ⊕ Nat)
    (r : List (Episode ι τ) × Moment ι τ) : Option (List (Episode ι τ) × Moment ι τ) :=
  match e with
  | .inl m =>
    if (partOf A.part r.2.world m).all fun part =>
        C.turn part (deeds A.part part r.1) (ready V A O part r.2) = m then
      (happens V (A.surroundings O) (.move m) r.2).map fun t => (r.1 ++ [⟨r.2, .move m, t⟩], t)
    else none
  | .inr time =>
    if r.2.now ≤ time ∧ C.stop = none ∧ (List.range time).all (fun T => T < r.2.now ||
        r.2.world.moves.all fun m =>
          (happens V (A.surroundings O) (.move m) (later r.2 T)).isNone) then
      some (r.1, later r.2 time)
    else none

def play (config : Config ι) (es : List (Move ⊕ Nat)) :
    Option (List (Episode ι τ) × Moment ι τ) :=
  es.foldlM (fun r e => tick V A O C e r) ([], started config)

variable {V A O C} {config : Config ι}

theorem clocked_of_tick {e : Move ⊕ Nat}
    {r r' : List (Episode ι τ) × Moment ι τ} (h : tick V A O C e r = some r')
    (hrun : Clocked V A O config C r.1 r.2) : Clocked V A O config C r'.1 r'.2 := by
  cases e with
  | inl m =>
    rw [tick] at h
    split at h
    · rename_i hturn
      obtain ⟨t, he, rfl⟩ := Option.map_eq_some_iff.1 h
      refine .moves hrun he fun part hpart => ?_
      simpa [hpart] using hturn
    · cases h
  | inr time =>
    rw [tick] at h
    split at h
    · rename_i hrest
      obtain ⟨hle, hstop, hrest⟩ := hrest
      cases h
      refine .waits hrun hle (fun T hT hlt m hm => ?_)
        (.inr fun n hn => by cases hstop.symm.trans hn)
      have hall := List.all_eq_true.1 hrest T (List.mem_range.2 hlt)
      rw [Bool.or_eq_true, decide_eq_true_iff] at hall
      have hnone := List.all_eq_true.1 (hall.resolve_left (Nat.not_lt.2 hT)) m hm
      simpa using hnone
    · cases h

theorem clocked_of_ticks {es : List (Move ⊕ Nat)}
    {r r' : List (Episode ι τ) × Moment ι τ}
    (h : es.foldlM (fun r e => tick V A O C e r) r = some r')
    (hrun : Clocked V A O config C r.1 r.2) : Clocked V A O config C r'.1 r'.2 := by
  induction es generalizing r with
  | nil =>
    cases h
    exact hrun
  | cons e es ih =>
    rw [List.foldlM_cons] at h
    obtain ⟨r₁, htick, hrest⟩ := Option.bind_eq_some_iff.1 h
    exact ih hrest (clocked_of_tick htick hrun)

theorem clocked_of_play {es : List (Move ⊕ Nat)}
    {r : List (Episode ι τ) × Moment ι τ} (h : play V A O C config es = some r) :
    Clocked V A O config C r.1 r.2 :=
  clocked_of_ticks h .start

end
end World

/-! ## A source that fails for one of three loops -/

namespace Sample

/-- Two pairs to poll every five nanoseconds, and a stream that is opened again after three. -/
def trio : Config String :=
  { (Config.default : Config String) with
    backfill := [("BTCUSDT", .minute 1), ("ETHUSDT", .minute 1)], live := ["BTCUSDT"],
    pollInterval := (Span.ofNanos? 5).getD .zero
    streamRestartDelay := (Span.ofNanos? 3).getD .zero }

/-- Each fetch brings a row at once. The first opening fails. -/
def obliging (part : Nat) (l : Ledger String) : Answers Binance.Kline Binance.Trade :=
  ⟨fun _ => some (.ok [kline]), if (l.asked part).length ≤ 1 then some .notConnected else none,
    fun _ => .empty⟩

/-- A fetch fails while nothing was asked of the second part. -/
def failing (part : Nat) (l : Ledger String) : Answers Binance.Kline Binance.Trade :=
  if (l.asked 2).isEmpty then
    { obliging part l with rows := fun _ => some (.error .notConnected) }
  else obliging part l

/-- A part for each loop, of which the first may fail. -/
def source (first : Nat → Ledger String → Answers Binance.Kline Binance.Trade) :
    Source String Binance.Kline Binance.Trade where
  part
    | .history instrument interval => if instrument = "BTCUSDT" ∧ interval = .minute 1 then 1 else 2
    | .trades _ => 3
  answers part := if part = 1 then first part else obliging part

/-- Only the first part answers otherwise. -/
theorem sameIn_source {part : Nat} (hne : part ≠ 1)
    (first : Nat → Ledger String → Answers Binance.Kline Binance.Trade) :
    (source obliging).SameIn part (source first) where
  parts := rfl
  answers l l' hl := by
    simp only [source, if_neg hne, obliging, hl.asked]

/-- A store that takes everything, and no downstream. -/
def outlets : Outlets := ⟨fun _ bars => .ok bars.length, fun _ ticks => .ok ticks.length, none⟩

/-- Each part has one loop, so it is always its turn. -/
def inTurn : World.Schedule String Binance.Trade := ⟨fun part _ _ => .goOn part, none⟩

def going (id times : Nat) : List (World.Move ⊕ Nat) := List.replicate times (.inl (.goOn id))

/-- The loops go on one after another as long as they can, the first of them with as many steps as
its passes take. -/
def playing (first again : Nat) : List (World.Move ⊕ Nat) :=
  going 1 first ++ going 2 4 ++ going 3 1 ++ [.inr 3] ++ going 3 2 ++ [.inr 5] ++ going 2 5 ++
    going 1 again ++ [.inr 6]

/-- A call with its time, and the number of bars if it stores some. -/
structure Heard where
  time : Nat
  stored : Option Nat
  deriving DecidableEq

def heard (id : Nat) (h : List (World.Episode String Binance.Trade)) : List Heard :=
  (World.timed id h).map fun c =>
    match c.2 with
    | .storeBars bars _ => ⟨c.1, some bars.length⟩
    | _ => ⟨c.1, none⟩

/-- The loop whose pass has failed. -/
def failedPass : Work String → Option (String × Interval)
  | .poll instrument interval (.passing (.finished (.error _))) => some (instrument, interval)
  | _ => none

/-- The instrument whose stream could not be opened. -/
def unopened : List (Call String Binance.Trade) → Option String
  | [.openStream instrument none] => some instrument
  | _ => none

/-- What is seen of a run: the time, whether it was stopped, what is heard of the first two loops,
the pass of the first that fails in the second incident, the opening of the third that fails in the
eighth, and the times of both. -/
structure Overheard where
  now : Nat
  stopped : Bool
  first : List Heard
  second : List Heard
  failed : Option (String × Interval)
  failedAt : Option Nat
  unopened : Option String
  unopenedAt : Option Nat
  deriving DecidableEq

def overheard (h : List (World.Episode String Binance.Trade))
    (t : World.Moment String Binance.Trade) : Overheard where
  now := t.now
  stopped := t.world.stopped
  first := heard 1 h
  second := heard 2 h
  failed := h[1]?.bind fun x => (x.after.world.job? 1).bind fun j => failedPass j.work
  failedAt := h[1]?.map fun x => x.before.now
  unopened := h[7]?.bind fun x => unopened (World.callsBy 3 x)
  unopenedAt := h[7]?.map fun x => x.before.now

theorem play_obliging :
    (World.play binance (source obliging) outlets inTurn trio (playing 4 5)).map (fun r =>
      overheard r.1 r.2) =
      some ⟨6, false, [⟨0, none⟩, ⟨0, some 1⟩, ⟨5, none⟩, ⟨5, some 1⟩],
        [⟨0, none⟩, ⟨0, some 1⟩, ⟨5, none⟩, ⟨5, some 1⟩], none, some 0, none, some 0⟩ := by
  decide +kernel

theorem play_failing :
    (World.play binance (source failing) outlets inTurn trio (playing 3 5)).map (fun r =>
      overheard r.1 r.2) =
      some ⟨6, false, [⟨0, none⟩, ⟨5, none⟩, ⟨5, some 1⟩],
        [⟨0, none⟩, ⟨0, some 1⟩, ⟨5, none⟩, ⟨5, some 1⟩], some ("BTCUSDT", .minute 1), some 0,
        some "BTCUSDT", some 0⟩ := by
  decide +kernel

theorem eq_of_failedPass {work : Work String} {instrument : String} {interval : Interval}
    (h : failedPass work = some (instrument, interval)) :
    ∃ e, work = .poll instrument interval (.passing (.finished (.error e))) := by
  unfold failedPass at h
  split at h
  · cases h
    exact ⟨_, rfl⟩
  · cases h

theorem eq_of_unopened {calls : List (Call String Binance.Trade)} {instrument : String}
    (h : unopened calls = some instrument) : calls = [.openStream instrument none] := by
  unfold unopened at h
  split at h
  · cases h
    rfl
  · cases h

theorem split_at {α : Type} {l : List α} {n : Nat} {x : α} (h : l[n]? = some x) :
    l = l.take n ++ x :: l.drop (n + 1) := by
  obtain ⟨hlt, rfl⟩ := List.getElem?_eq_some_iff.1 h
  rw [← List.drop_eq_getElem_cons hlt, List.take_append_drop]

end Sample

/-- The second run has a source that fails for the first loop, at first. That loop stores nothing
then, and polls again after five nanoseconds; the second one goes on as it does in the first run;
and the third, whose stream could not be opened, opens one after three nanoseconds. -/
theorem loops_isolated_failing : ∃ h₁ t₁ h₂ t₂,
    World.Clocked binance (Sample.source Sample.obliging) Sample.outlets Sample.trio Sample.inTurn
      h₁ t₁ ∧
    World.Clocked binance (Sample.source Sample.failing) Sample.outlets Sample.trio Sample.inTurn
      h₂ t₂ ∧
    Sample.heard 1 h₁ = [⟨0, none⟩, ⟨0, some 1⟩, ⟨5, none⟩, ⟨5, some 1⟩] ∧
    Sample.heard 1 h₂ = [⟨0, none⟩, ⟨5, none⟩, ⟨5, some 1⟩] ∧
    Sample.heard 2 h₁ = [⟨0, none⟩, ⟨0, some 1⟩, ⟨5, none⟩, ⟨5, some 1⟩] ∧
    (World.timed 2 h₁).filter (·.1 < 6) = (World.timed 2 h₂).filter (·.1 < 6) ∧
    (World.timed 1 (h₂.drop 2)).head? =
      some (5, .fetch "BTCUSDT" (.latest (.minute 1) Sample.trio.lookback)) ∧
    ∃ stream, (World.timed 3 (h₂.drop 8)).head? = some (3, .openStream "BTCUSDT" stream) := by
  obtain ⟨⟨h₁, t₁⟩, hplay₁, hheard₁⟩ := Option.map_eq_some_iff.1 Sample.play_obliging
  obtain ⟨⟨h₂, t₂⟩, hplay₂, hheard₂⟩ := Option.map_eq_some_iff.1 Sample.play_failing
  have hrun₁ := World.clocked_of_play hplay₁
  have hrun₂ := World.clocked_of_play hplay₂
  simp only [Sample.overheard, Sample.Overheard.mk.injEq] at hheard₁ hheard₂
  obtain ⟨hnow₁, -, hfirst₁, hsecond₁, -⟩ := hheard₁
  obtain ⟨hnow₂, hgoing, hfirst₂, -, hfailed, hfailedAt, hunopened, hunopenedAt⟩ := hheard₂
  obtain ⟨hsame, hagain⟩ :=
    World.loops_isolated binance Sample.outlets Sample.trio Sample.inTurn
  refine ⟨h₁, t₁, h₂, t₂, hrun₁, hrun₂, hfirst₁, hfirst₂, hsecond₁, ?_, ?_, ?_⟩
  · exact hsame _ _ h₁ t₁ h₂ t₂ hrun₁ hrun₂ 6 hnow₁.ge hnow₂.ge 2
      (.history "ETHUSDT" (.minute 1)) rfl (Sample.sameIn_source (by decide) _)
  · obtain ⟨x, hx, hjob⟩ := Option.bind_eq_some_iff.1 hfailed
    obtain ⟨j, hj, hpass⟩ := Option.bind_eq_some_iff.1 hjob
    obtain ⟨e, hwork⟩ := Sample.eq_of_failedPass hpass
    have htime : x.before.now = 0 := by simpa [hx] using hfailedAt
    have hsplit := Sample.split_at hx
    have hhead := (hagain _ _ x _ t₂ (hsplit ▸ hrun₂) hgoing 1).1 "BTCUSDT" (.minute 1) e
      (by rw [hj, Option.map_some, hwork]) (by rw [htime, hnow₂]; decide)
    rw [htime] at hhead
    exact hhead
  · obtain ⟨x, hx, hcalls⟩ := Option.bind_eq_some_iff.1 hunopened
    have htime : x.before.now = 0 := by simpa [hx] using hunopenedAt
    have hsplit := Sample.split_at hx
    obtain ⟨stream, hhead⟩ := (hagain _ _ x _ t₂ (hsplit ▸ hrun₂) hgoing 3).2 "BTCUSDT" rfl
      (.inl (Sample.eq_of_unopened hcalls)) (by rw [htime, hnow₂]; decide)
    rw [htime] at hhead
    exact ⟨stream, hhead⟩

end Collector
end MarketFeed
