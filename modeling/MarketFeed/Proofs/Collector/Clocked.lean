import MarketFeed.Proofs.Collector.Lockstep
import MarketFeed.Proofs.Collector.Parts
import MarketFeed.Proofs.Collector.Stopping
import MarketFeed.Proofs.Tasks.Eager

/-!
# MarketFeed.Proofs.Collector.Clocked

A collector on a virtual clock, and what the loops of one part of its source do.

* `Clocked` — the runs: time passes only while no loop can go on.
* `Steady` — the source knows the time, and each job has to do with its part only.
* `View`, `view_twin`, `view_of_other` — what the loops of a part see; it tells all that they can
  do, and the other loops do not change it.
* `Can`, `can_single`, `eager_of_clocked` — the loops of a part go on as soon as they can, and in
  one way only.
* `timed`, `timed_eq` — the calls of a loop with their times are among what its part does.
-/

namespace MarketFeed
namespace Collector
namespace World

section

variable {ι ρ τ : Type}

/-! ## Runs -/

abbrev Moment (ι τ : Type) := Timed (Watched (Ledger ι) ι τ)

abbrev Episode (ι τ : Type) := Incident (Moment ι τ) (Event (Ledger ι) ι)

/-- The job that moves. -/
def Move.mover? : Move → Option Nat
  | .halt id => some id
  | .goOn id => some id
  | .finish _ => none

/-- The part of the source that a move has to do with. -/
def partOf (parts : Subject ι → Nat) (w : Watched (Ledger ι) ι τ) (m : Move) : Option Nat :=
  ((m.mover?.bind w.job?).bind fun j => subject? j.work).map parts

/-- What is done to the loops of a part: one of them makes a move with some calls, or all are
stopped. -/
inductive Deed (ι τ : Type) where
  | move (m : Move) (calls : List (Call ι τ))
  | stop

/-- What an incident does to the loops of a part, if anything, and when. -/
def deed? (parts : Subject ι → Nat) (part : Nat)
    (x : Episode ι τ) : Option (Nat × Deed ι τ) :=
  match x.event with
  | .move m =>
    if partOf parts x.before.world m = some part then some (x.before.now, .move m (callsAt x))
    else none
  | .stop => some (x.before.now, .stop)
  | _ => none

def deeds (parts : Subject ι → Nat) (part : Nat) (h : List (Episode ι τ)) :
    List (Nat × Deed ι τ) :=
  h.filterMap (deed? parts part)

/-- Whose turn it is among the loops of a part that can move, by what they did so far; and when the
collector is stopped, if it is. -/
structure Schedule (ι τ : Type) where
  turn : Nat → List (Nat × Deed ι τ) → (Move → Bool) → Move
  stop : Option Nat

/-- Time has passed, and the source knows. -/
def later (t : Moment ι τ) (time : Nat) : Moment ι τ :=
  ⟨time, t.world.setAround ({ t.world.around.1 with now := time }, t.world.around.2)⟩

/-- The loops have just been started. -/
def started (config : Config ι) : Moment ι τ :=
  ⟨0, (World.new config (.new 0, [])).start.2⟩

/-- What a loop is about, by the number that it gets when it is started. -/
def loop? (config : Config ι) (id : Nat) : Option (Subject ι) :=
  ((World.new config ()).start.2.job? id).bind fun j => subject? j.work

section

variable (V : Venue ι ρ τ) (A : Source ι ρ τ) (O : Outlets)

/-- No move is possible at a time. -/
def RestsAt (t : Moment ι τ) (time : Nat) : Prop :=
  ∀ m ∈ t.world.moves, happens V (A.surroundings O) (.move m) (later t time) = none

/-- The moves that the loops of a part can make. -/
def ready (part : Nat) (t : Moment ι τ) (m : Move) : Bool :=
  decide (partOf A.part t.world m = some part) &&
    (happens V (A.surroundings O) (.move m) t).isSome

/-- The runs of a collector on a virtual clock. The loops of different parts go on in any order. A
stop comes when all is at rest, and time passes only while nothing can happen. -/
inductive Clocked (config : Config ι) (C : Schedule ι τ) :
    List (Episode ι τ) → Moment ι τ → Prop where
  | start : Clocked config C [] (started config)
  | moves {h : List (Episode ι τ)} {t t' : Moment ι τ} {m : Move} (hist : Clocked config C h t)
      (he : happens V (A.surroundings O) (.move m) t = some t')
      (hturn : ∀ part, partOf A.part t.world m = some part →
        C.turn part (deeds A.part part h) (ready V A O part t) = m) :
      Clocked config C (h ++ [⟨t, .move m, t'⟩]) t'
  | stops {h : List (Episode ι τ)} {t : Moment ι τ} (hist : Clocked config C h t)
      (hstop : C.stop = some t.now) (hgoing : t.world.stopped = false)
      (hrest : RestsAt V A O t t.now) :
      Clocked config C (h ++ [⟨t, .stop, t.update stop⟩]) (t.update stop)
  | waits {h : List (Episode ι τ)} {t : Moment ι τ} {time : Nat} (hist : Clocked config C h t)
      (hle : t.now ≤ time) (hrest : ∀ T, t.now ≤ T → T < time → RestsAt V A O t T)
      (hstop : t.world.stopped = true ∨ ∀ n, C.stop = some n → time ≤ n) :
      Clocked config C h (later t time)

end

variable {V : Venue ι ρ τ} {A A' : Source ι ρ τ} {O : Outlets} {config : Config ι}
  {C : Schedule ι τ} {part now time : Nat} {parts : Subject ι → Nat}
  {t t' t₁ t₁' : Moment ι τ} {w : Watched (Ledger ι) ι τ} {m : Move}
  {h : List (Episode ι τ)}

/-! ## What stays -/

/-- The source knows the time, and each job has to do with its part only. -/
structure Steady (A : Source ι ρ τ) (t : Moment ι τ) : Prop where
  sound : Sound t.world
  clock : t.world.around.1.now = t.now
  wired : ∀ j ∈ t.world.jobs, ∀ s, subject? j.work = some s → Wired A (A.part s) j.work

theorem subject?_of_goes {S : Surroundings (Ledger ι) ι ρ τ} {work work' : Work ι}
    {calls : List (Call ι τ)} {l : Ledger ι} (h : WorkGoes V S now w work calls l work') :
    ∃ s, subject? work = some s ∧ (work' = .ended ∨ subject? work' = some s) := by
  cases h with
  | pass h => exact ⟨_, rfl, .inr rfl⟩
  | poll h => cases h <;> exact ⟨_, rfl, by simp [subject?]⟩
  | stream h => cases h <;> exact ⟨_, rfl, by simp [subject?]⟩

theorem subject?_of_halts {S : Surroundings (Ledger ι) ι ρ τ} {work : Work ι}
    {calls : List (Call ι τ)} {l l' : Ledger ι} (h : Halts S l work calls l') :
    ∃ s, subject? work = some s := by
  cases h <;> exact ⟨_, rfl⟩

namespace Steady

theorem start (A : Source ι ρ τ) (config : Config ι) : Steady A (started config) where
  sound := start_keeps (fun _ h => ⟨h.ordered, fun j hj => Nat.lt_succ_of_lt (h.numbered j hj),
    h.filled⟩) (fun _ run _ hfresh h => h.addJob run hfresh.filled) (Sound.new config _)
  clock := by
    have haround := log_start (World.new config ((Ledger.new 0 : Ledger ι), ([] : List (Call ι τ))))
    exact congrArg (fun a => a.1.now) haround
  wired := by
    have hadd {w : Watched (Ledger ι) ι τ} {run : Option Nat} {work : Work ι}
        (hnone : handle? work = none)
        (h : ∀ j ∈ w.jobs, ∀ s, subject? j.work = some s → Wired A (A.part s) j.work) :
        ∀ j ∈ (w.addJob run work).jobs, ∀ s, subject? j.work = some s →
          Wired A (A.part s) j.work := by
      intro j hj s hs
      rcases List.mem_append.1 hj with hj | hj
      · exact h j hj s hs
      · obtain rfl := List.mem_singleton.1 hj
        exact ⟨fun s' hs' => by rw [Option.some.inj (hs.symm.trans hs')],
          fun n hn => by cases hnone.symm.trans hn⟩
    exact start_adds (P := fun w : Watched (Ledger ι) ι τ =>
      ∀ j ∈ w.jobs, ∀ s, subject? j.work = some s → Wired A (A.part s) j.work)
      (fun _ h => h) (fun _ _ _ _ h => hadd rfl h) (fun _ _ _ h => hadd rfl h)
      fun j hj => absurd hj List.not_mem_nil

theorem later (h : Steady A t) (time : Nat) : Steady A (later t time) :=
  ⟨⟨h.sound.ordered, h.sound.numbered, h.sound.filled⟩, rfl, h.wired⟩

theorem later_now (h : Steady A t) : World.later t t.now = t := by
  obtain ⟨now, config, stopped, jobs, nextId, runs, finished, ⟨clock, asks⟩, log⟩ := t
  obtain rfl : clock = now := h.clock
  rfl

theorem stop (h : Steady A t) : Steady A (t.update stop) :=
  ⟨⟨h.sound.ordered, h.sound.numbered, h.sound.filled⟩, h.clock, h.wired⟩

theorem wired_of_job? (h : Steady A t) {j : Job ι} {id : Nat} {s : Subject ι}
    (hj : t.world.job? id = some j) (hs : subject? j.work = some s) : Wired A (A.part s) j.work :=
  h.wired j (mem_of_job? hj) s hs

theorem setWork (h : Steady A t) {l : Ledger ι} {calls : List (Call ι τ)} {id : Nat}
    {work : Work ι} (hwithin : t.world.around.1.Within part l) (hfilled : work.Filled)
    (hwired : Wired A part work) :
    Steady A (t.update fun w => (w.called l calls).setWork id work) where
  sound := (h.sound.called l calls).setWork hfilled
  clock := (hwithin (part + 1) (Nat.succ_ne_self part)).now.trans h.clock
  wired := by
    intro j hj s hs
    obtain ⟨i, hi, rfl⟩ := List.mem_map.1 hj
    by_cases hid : i.id = id
    · rw [if_pos hid] at hs ⊢
      rw [hwired.subject s hs]
      exact hwired
    · rw [if_neg hid] at hs ⊢
      exact h.wired i hi s hs

theorem next (h : Steady A t) (he : happens V (A.surroundings O) (.move m) t = some t') :
    Steady A t' := by
  cases occurs_of_happens h.sound he with
  | goes hj hg =>
    obtain ⟨s, hs, -⟩ := subject?_of_goes hg
    obtain ⟨hwired, hwithin⟩ := hg.within (h.wired_of_job? hj hs)
    exact h.setWork hwithin (hg.filled (h.sound.filled _ (mem_of_job? hj))) hwired
  | halts hj _ hh =>
    obtain ⟨s, hs⟩ := subject?_of_halts hh
    exact h.setWork (hh.within (h.wired_of_job? hj hs)) trivial wired_ended
  | finishes _ =>
    exact ⟨h.sound.filter _ rfl rfl, h.clock, fun j hj => h.wired j (List.mem_filter.1 hj).1⟩

end Steady

/-! ## What the loops of a part see -/

def inPart (parts : Subject ι → Nat) (part : Nat) (j : Job ι) : Bool :=
  (subject? j.work).any fun s => parts s = part

/-- What the loops of a part see: themselves, and what was asked of their part. -/
structure View (ι : Type) where
  config : Config ι
  stopped : Bool
  job? : Nat → Option (Job ι)
  asked : List (Nat × Ask ι)

def view (parts : Subject ι → Nat) (part : Nat) (w : Watched (Ledger ι) ι τ) : View ι :=
  ⟨w.config, w.stopped, fun id => (w.job? id).filter (inPart parts part), w.around.1.asked part⟩

theorem view_setWork {l : Ledger ι} {calls : List (Call ι τ)} {id : Nat} {work : Work ι} {j : Job ι}
    (hj : w.job? id = some j) :
    view parts part ((w.called l calls).setWork id work) =
      ⟨w.config, w.stopped, Function.update (view parts part w).job? id
        ((some { j with work }).filter (inPart parts part)), l.asked part⟩ := by
  refine congrArg (View.mk w.config w.stopped · (l.asked part)) (funext fun id' => ?_)
  by_cases hid : id' = id
  · subst hid
    rw [job?_setWork_self (w := w.called l calls) hj, Function.update_self]
  · rw [job?_setWork_of_ne (w := w.called l calls) hid, Function.update_of_ne hid]
    rfl

theorem job?_of_view {w' : Watched (Ledger ι) ι τ} {id : Nat} {j : Job ι}
    (hv : view parts part w' = view parts part w) (hj : w.job? id = some j)
    (hpart : inPart parts part j = true) : w'.job? id = some j := by
  have hsame := congrFun (congrArg View.job? hv) id
  simp only [view, hj, Option.filter_some, if_pos hpart] at hsame
  exact (Option.filter_eq_some_iff.1 hsame).1

theorem partOf_of_job {id : Nat} {j : Job ι} {s : Subject ι} (hm : m.mover? = some id)
    (hj : w.job? id = some j) (hs : subject? j.work = some s) :
    partOf parts w m = some (parts s) := by
  rw [partOf, hm, Option.bind_some, hj, Option.bind_some, hs, Option.map_some]

theorem inPart_of_subject {j : Job ι} {s : Subject ι} (hs : subject? j.work = some s) :
    inPart parts part j = decide (parts s = part) := by
  rw [inPart, hs, Option.any_some]

/-- What the loops of a part see tells what they can do, and what they see then. -/
theorem view_twin (h : Steady A t) (h' : Steady A' t') (hA : A.SameIn part A')
    (hnow : t'.now = t.now) (hv : view A.part part t'.world = view A.part part t.world)
    (hpart : partOf A.part t.world m = some part)
    (he : happens V (A.surroundings O) (.move m) t = some t₁) :
    partOf A.part t'.world m = some part ∧
    ∃ t₁', happens V (A'.surroundings O) (.move m) t' = some t₁' ∧
      view A.part part t₁'.world = view A.part part t₁.world ∧
      callsAt ⟨t', .move m, t₁'⟩ = callsAt ⟨t, .move m, t₁⟩ := by
  have hconfig : t'.world.config = t.world.config := congrArg View.config hv
  have hstopped : t'.world.stopped = t.world.stopped := congrArg View.stopped hv
  have hl : t.world.around.1.Same part t'.world.around.1 :=
    ⟨by rw [h'.clock, h.clock, hnow], congrArg View.asked hv⟩
  -- the job that moves is there in both, and what comes of it is the same
  have hsame {id : Nat} {j : Job ι} {s : Subject ι} (hm : m.mover? = some id)
      (hj : t.world.job? id = some j) (hs : subject? j.work = some s) :
      A.part s = part ∧ t'.world.job? id = some j := by
    have hin : A.part s = part := Option.some.inj ((partOf_of_job hm hj hs).symm.trans hpart)
    exact ⟨hin, job?_of_view hv hj (by rw [inPart_of_subject hs]; exact decide_eq_true hin)⟩
  have hview {id : Nat} {j : Job ι} {work : Work ι} {calls : List (Call ι τ)} {l l' : Ledger ι}
      (hj : t.world.job? id = some j) (hj' : t'.world.job? id = some j) (hl : l.Same part l') :
      view A.part part ((t'.world.called l' calls).setWork id work) =
        view A.part part ((t.world.called l calls).setWork id work) := by
    rw [view_setWork hj, view_setWork hj', hv, hconfig, hstopped, hl.asked]
  cases occurs_of_happens h.sound he with
  | @goes j calls l work hj hg =>
    obtain ⟨s, hs, -⟩ := subject?_of_goes hg
    obtain ⟨rfl, hj'⟩ := hsame rfl hj hs
    obtain ⟨l', hg', hl'⟩ := hg.twin hA hconfig hstopped hl (h.wired_of_job? hj hs)
    rw [← hnow] at hg'
    exact ⟨partOf_of_job rfl hj' hs, _, happens_of_goes h'.sound hj' hg', hview hj hj' hl',
      (callsAt_of_log rfl).trans (callsAt_of_log rfl).symm⟩
  | @halts j calls l hj hst hh =>
    obtain ⟨s, hs⟩ := subject?_of_halts hh
    obtain ⟨rfl, hj'⟩ := hsame rfl hj hs
    obtain ⟨l', hh', hl'⟩ := hh.twin A' hl (h.wired_of_job? hj hs)
    exact ⟨partOf_of_job rfl hj' hs, _, happens_of_halts hj' (hstopped.trans hst) hh',
      hview hj hj' hl', (callsAt_of_log rfl).trans (callsAt_of_log rfl).symm⟩
  | finishes _ => cases hpart

theorem view_of_ask {id : Nat} {j : Job ι} {work : Work ι} {calls : List (Call ι τ)} {l : Ledger ι}
    (hj : w.job? id = some j) (hin : inPart parts part j = false)
    (hin' : inPart parts part { j with work } = false) (hl : w.around.1.Same part l) :
    view parts part ((w.called l calls).setWork id work) = view parts part w := by
  rw [view_setWork hj, Option.filter_some, if_neg (by simp [hin']), hl.asked]
  refine congrArg (View.mk w.config w.stopped · _) (Function.update_eq_self_iff.2 ?_)
  change none = (w.job? id).filter (inPart parts part)
  rw [hj, Option.filter_some, if_neg (by simp [hin])]

/-- What the other loops do, they do not see. -/
theorem view_of_other (h : Steady A t) (hpart : partOf A.part t.world m ≠ some part)
    (he : happens V (A.surroundings O) (.move m) t = some t') :
    view A.part part t'.world = view A.part part t.world := by
  have hother {id : Nat} {j : Job ι} {s : Subject ι} (hm : m.mover? = some id)
      (hj : t.world.job? id = some j) (hs : subject? j.work = some s) : A.part s ≠ part :=
    fun heq => hpart (heq ▸ partOf_of_job hm hj hs)
  have hout {j : Job ι} {s : Subject ι} (hs : subject? j.work = some s) (hne : A.part s ≠ part) :
      inPart A.part part j = false := by
    rw [inPart_of_subject hs]
    exact decide_eq_false hne
  cases occurs_of_happens h.sound he with
  | @goes j calls l work hj hg =>
    obtain ⟨s, hs, hs'⟩ := subject?_of_goes hg
    have hne := hother rfl hj hs
    have hin' : inPart A.part part { j with work } = false := by
      rcases hs' with rfl | hs'
      · rfl
      · exact hout hs' hne
    exact view_of_ask hj (hout hs hne) hin' ((hg.within (h.wired_of_job? hj hs)).2 part hne.symm)
  | @halts j calls l hj hst hh =>
    obtain ⟨s, hs⟩ := subject?_of_halts hh
    have hne := hother rfl hj hs
    exact view_of_ask hj (hout hs hne) rfl (hh.within (h.wired_of_job? hj hs) part hne.symm)
  | @finishes run hover =>
    -- only loops that have ended are removed
    have hfilter := h.sound.job?_filter { t.world with
      runs := t.world.runs.filter (· ≠ run)
      jobs := t.world.jobs.filter (·.run ≠ some run)
      finished := t.world.finished ++ [t.now] } _ rfl rfl
    refine congrArg (View.mk t.world.config t.world.stopped · _) (funext fun id => ?_)
    refine (congrArg (Option.filter _) (hfilter id)).trans ?_
    cases hj : t.world.job? id with
    | none => rfl
    | some j =>
      by_cases hrun : j.run = some run
      · have hin : inPart A.part part j = false := by
          rw [inPart, hover j (mem_of_job? hj) hrun]
          rfl
        rw [Option.filter_some, if_neg (by simpa using hrun), Option.filter_some,
          if_neg (by simp [hin])]
        rfl
      · rw [Option.filter_some, if_pos (by simpa using hrun)]

/-! ## In one way only -/

/-- What the loops of a part can do, after some deeds and seeing something, and what they see then.
Only the answers of their part make a difference. -/
inductive Can (V : Venue ι ρ τ) (A : Source ι ρ τ) (O : Outlets) (C : Schedule ι τ) (part : Nat)
    (past : List (Nat × Deed ι τ)) (now : Nat) (v : View ι) : Deed ι τ → View ι → Prop where
  | move {A' : Source ι ρ τ} {t t' : Moment ι τ} {m : Move}
      (hA : A.SameIn part A') (ht : Steady A' t) (hnow : t.now = now)
      (hv : view A.part part t.world = v) (hpart : partOf A.part t.world m = some part)
      (he : happens V (A'.surroundings O) (.move m) t = some t')
      (hturn : C.turn part past (ready V A' O part t) = m) :
      Can V A O C part past now v (.move m (callsAt ⟨t, .move m, t'⟩)) (view A.part part t'.world)
  | stop {A' : Source ι ρ τ} {t : Moment ι τ} (hA : A.SameIn part A')
      (ht : Steady A' t) (hnow : t.now = now) (hv : view A.part part t.world = v)
      (hstop : C.stop = some now) (hgoing : t.world.stopped = false)
      (hrest : ∀ m, ready V A' O part t m = false) :
      Can V A O C part past now v .stop { v with stopped := true }

/-- What the loops of a part see tells which of them can move. -/
theorem ready_eq (h : Steady A t) (h' : Steady A' t') (hA : A.SameIn part A')
    (hnow : t'.now = t.now) (hv : view A.part part t'.world = view A.part part t.world) :
    ready V A' O part t' = ready V A O part t := by
  have hle {A A' : Source ι ρ τ} {t t' : Moment ι τ} (h : Steady A t)
      (h' : Steady A' t') (hA : A.SameIn part A') (hnow : t'.now = t.now)
      (hv : view A.part part t'.world = view A.part part t.world) {m : Move}
      (hm : ready V A O part t m = true) : ready V A' O part t' m = true := by
    simp only [ready, Bool.and_eq_true, decide_eq_true_eq, Option.isSome_iff_exists] at hm ⊢
    obtain ⟨hpart, t₁, he⟩ := hm
    obtain ⟨hpart', t₁', he', -⟩ := view_twin h h' hA hnow hv hpart he
    exact ⟨hA.parts ▸ hpart', t₁', he'⟩
  refine funext fun m => Bool.eq_iff_iff.2 ⟨fun hm => ?_, fun hm => hle h h' hA hnow hv hm⟩
  exact hle h' h hA.symm hnow.symm (by rw [hA.parts, hv]) hm

theorem ready_of_happens (hpart : partOf A.part t.world m = some part)
    (he : happens V (A.surroundings O) (.move m) t = some t') : ready V A O part t m = true := by
  rw [ready, he, decide_eq_true hpart]
  rfl

/-- The loops of a part can go on in one way only. -/
theorem can_single : Eager.Single (Can V A O C part) := by
  intro past now v a b v₁ v₂ ha hb
  -- the sources of the two ways answer the part alike, and the views are the same
  have hboth {A₁ A₂ : Source ι ρ τ} {t₁ t₂ : Moment ι τ}
      (hA₁ : A.SameIn part A₁) (hA₂ : A.SameIn part A₂) (h₁ : Steady A₁ t₁) (h₂ : Steady A₂ t₂)
      (hnow₁ : t₁.now = now) (hnow₂ : t₂.now = now) (hv₁ : view A.part part t₁.world = v)
      (hv₂ : view A.part part t₂.world = v) :
      view A₁.part part t₂.world = view A₁.part part t₁.world ∧
        ready V A₂ O part t₂ = ready V A₁ O part t₁ := by
    have hv : view A₁.part part t₂.world = view A₁.part part t₁.world := by
      rw [hA₁.parts, hv₁, hv₂]
    exact ⟨hv, ready_eq h₁ h₂ (hA₁.between hA₂) (hnow₂.trans hnow₁.symm) hv⟩
  cases ha with
  | move hA ht hnow hv hpart he hturn =>
    cases hb with
    | move hA' ht' hnow' hv' hpart' he' hturn' =>
      obtain ⟨hview, hready⟩ := hboth hA hA' ht ht' hnow hnow' hv hv'
      rw [hready, hturn] at hturn'
      subst hturn'
      obtain ⟨-, t₁, he₁, hview₁, hcalls⟩ := view_twin ht ht' (hA.between hA')
        (hnow'.trans hnow.symm) hview (hA.parts ▸ hpart) he
      obtain rfl := Option.some.inj (he'.symm.trans he₁)
      rw [hA.parts] at hview₁
      exact ⟨by rw [hcalls], hview₁.symm⟩
    | stop hA' ht' hnow' hv' _ _ hrest =>
      obtain ⟨-, hready⟩ := hboth hA hA' ht ht' hnow hnow' hv hv'
      have hm := ready_of_happens (hA.parts ▸ hpart) he
      rw [← hready, hrest] at hm
      cases hm
  | stop hA ht hnow hv hstop hgoing hrest =>
    cases hb with
    | move hA' ht' hnow' hv' hpart' he' hturn' =>
      obtain ⟨-, hready⟩ := hboth hA hA' ht ht' hnow hnow' hv hv'
      have hm := ready_of_happens (hA'.parts ▸ hpart') he'
      rw [hready, hrest] at hm
      cases hm
    | stop => exact ⟨rfl, rfl⟩

/-! ## Whole runs -/

theorem now_of_move (he : happens V (A.surroundings O) (.move m) t = some t') : t'.now = t.now := by
  obtain ⟨w, -, rfl⟩ := Option.map_eq_some_iff.1 he
  rfl

theorem deed?_move : deed? parts part ⟨t, .move m, t'⟩ =
    if partOf parts t.world m = some part then some (t.now, .move m (callsAt ⟨t, .move m, t'⟩))
    else none := rfl

theorem deeds_concat (x : Episode ι τ) :
    deeds parts part (h ++ [x]) = deeds parts part h ++ (deed? parts part x).toList :=
  filterMap_concat h x _

theorem steady_of_clocked (hrun : Clocked V A O config C h t) : Steady A t := by
  induction hrun with
  | start => exact .start A config
  | moves _ he _ ih => exact ih.next he
  | stops _ _ _ _ ih => exact ih.stop
  | waits _ _ _ _ ih => exact ih.later _

theorem mem_moves {id : Nat} {j : Job ι} (hm : m.mover? = some id) (hj : w.job? id = some j) :
    m ∈ w.moves := by
  have hj' := id_of_job? hj
  subst hj'
  refine List.mem_append_left _ (List.mem_flatMap.2 ⟨j, mem_of_job? hj, ?_⟩)
  cases m with
  | halt i => cases hm; exact List.mem_cons_self
  | goOn i => cases hm; exact List.mem_cons_of_mem _ List.mem_cons_self
  | finish run => cases hm

/-- Where no move is possible, the loops of a part can do nothing. -/
theorem ready_of_rest (hrest : RestsAt V A O t time) (m : Move) :
    ready V A O part (later t time) m = false := by
  by_contra hm
  simp only [ready, Bool.not_eq_false, Bool.and_eq_true, decide_eq_true_eq,
    Option.isSome_iff_exists] at hm
  obtain ⟨hpart, t₁, he⟩ := hm
  obtain ⟨s, hs, -⟩ := Option.map_eq_some_iff.1 hpart
  obtain ⟨j, hj, -⟩ := Option.bind_eq_some_iff.1 hs
  obtain ⟨id, hid, hj⟩ := Option.bind_eq_some_iff.1 hj
  cases (hrest m (mem_moves hid hj)).symm.trans he

/-- In a run, the loops of a part go on as soon as they can. -/
theorem eager_of_clocked {A₀ : Source ι ρ τ} (hA : A₀.SameIn part A)
    (hrun : Clocked V A O config C h t) :
    Eager (Can V A₀ O C part) 0
      (view A₀.part part (started config : Moment ι τ).world)
      (deeds A₀.part part h) t.now (view A₀.part part t.world) := by
  induction hrun with
  | start => exact .start
  | @moves h t t' m hist he hturn ih =>
    have ht := steady_of_clocked hist
    rw [deeds_concat, now_of_move he]
    by_cases hpart : partOf A₀.part t.world m = some part
    · rw [deed?_move, if_pos hpart]
      refine .goes ih (.move hA ht rfl rfl hpart he ?_)
      rw [← hA.parts]
      exact hturn part (hA.parts ▸ hpart)
    · have hview := view_of_other ht (hA.parts ▸ hpart) he
      rw [hA.parts] at hview
      rw [deed?_move, if_neg hpart, hview, Option.toList_none, List.append_nil]
      exact ih
  | @stops h t hist hstop hgoing hrest ih =>
    have ht := steady_of_clocked hist
    rw [deeds_concat]
    refine .goes ih (.stop hA ht rfl rfl hstop hgoing fun m => ?_)
    rw [← ht.later_now]
    exact ready_of_rest hrest m
  | @waits h t time hist hle hrest hstop ih =>
    have ht := steady_of_clocked hist
    refine .waits ih hle fun T hT hT' a v hcan => ?_
    cases hcan with
    | move hA' ht' hnow' hv' hpart' he' hturn' =>
      have hm := ready_of_happens (hA'.parts ▸ hpart') he'
      rw [← ready_eq ht' (ht.later T) (hA'.between hA) hnow'.symm (by rw [hA'.parts, hv']; rfl),
        ready_of_rest (hrest T hT hT')] at hm
      cases hm
    | stop hA' ht' hnow' hv' hstop' hgoing hrest' =>
      have hstopped : t.world.stopped = false := (congrArg View.stopped hv').symm.trans hgoing
      rcases hstop with hstop | hstop
      · cases hstopped.symm.trans hstop
      · exact absurd (hstop T hstop') (Nat.not_le.2 hT')

/-! ## The calls of a loop -/

/-- The calls of a job, with their times. -/
def timed (id : Nat) (h : List (Episode ι τ)) : List (Nat × Call ι τ) :=
  h.flatMap fun x => (callsBy id x).map fun c => (x.before.now, c)

/-- The calls of a job in a deed. -/
def callsIn (id : Nat) : Nat × Deed ι τ → List (Nat × Call ι τ)
  | (time, .move m calls) => if m.mover? = some id then calls.map fun c => (time, c) else []
  | (_, .stop) => []

theorem timed_concat (id : Nat)
    (x : Episode ι τ) :
    timed id (h ++ [x]) = timed id h ++ (callsBy id x).map fun c => (x.before.now, c) :=
  flatMap_concat h x _

theorem job?_started (config : Config ι) (id : Nat) :
    (started config : Moment ι τ).world.job? id =
      (World.new config ()).start.2.job? id :=
  congrArg (World.job? · id) (start_among (World.new config ()) (Ledger.new 0, []))

/-- A loop goes on being about what it was started for, until it ends. -/
theorem loop_of_clocked (hrun : Clocked V A O config C h t) {id : Nat} {j : Job ι}
    {s : Subject ι} (hj : t.world.job? id = some j) (hs : subject? j.work = some s) :
    loop? config id = some s := by
  induction hrun generalizing j with
  | start =>
    rw [job?_started] at hj
    rw [loop?, hj]
    exact hs
  | @moves h t t' m hist he hturn ih =>
    cases fares_of_happens (steady_of_clocked hist).sound he id with
    | goes _ hj₀ hg _ hj' =>
      cases hj.symm.trans hj'
      obtain ⟨s₀, hs₀, hwork | hwork⟩ := subject?_of_goes hg
      · rw [hwork] at hs
        cases hs
      · exact ih hj₀ (hs₀.trans (hwork.symm.trans hs))
    | halts _ _ _ _ _ hj' =>
      cases hj.symm.trans hj'
      cases hs
    | begins he' => simp at he'
    | leaves _ _ _ hj' => cases hj.symm.trans hj'
    | stays _ hj' => exact ih (hj'.symm.trans hj) hs
  | stops _ _ _ _ ih => exact ih hj hs
  | waits _ _ _ _ ih => exact ih hj hs

theorem callsBy_move (id : Nat) : callsBy id ⟨t, .move m, t'⟩ =
    if m.mover? = some id then callsAt ⟨t, .move m, t'⟩ else [] := by
  cases m <;> simp [callsBy, Move.mover?]

theorem partOf_of_happens (hrun : Clocked V A O config C h t) {id : Nat} {s : Subject ι}
    (hs : loop? config id = some s) (hm : m.mover? = some id)
    (he : happens V (A.surroundings O) (.move m) t = some t') :
    partOf A.part t.world m = some (A.part s) := by
  have hpart {j : Job ι} {s' : Subject ι} (hm' : m.mover? = some j.id)
      (hj : t.world.job? j.id = some j) (hs' : subject? j.work = some s') :
      partOf A.part t.world m = some (A.part s) := by
    obtain rfl := Option.some.inj (hm.symm.trans hm')
    obtain rfl := Option.some.inj (hs.symm.trans (loop_of_clocked hrun hj hs'))
    exact partOf_of_job hm' hj hs'
  cases occurs_of_happens (steady_of_clocked hrun).sound he with
  | goes hj hg =>
    obtain ⟨s', hs', -⟩ := subject?_of_goes hg
    exact hpart rfl hj hs'
  | halts hj _ hh =>
    obtain ⟨s', hs'⟩ := subject?_of_halts hh
    exact hpart rfl hj hs'
  | finishes _ => cases hm

/-- The calls of a loop are among what its part does. -/
theorem timed_eq (hrun : Clocked V A O config C h t) {id : Nat} {s : Subject ι}
    (hs : loop? config id = some s) :
    timed id h = (deeds A.part (A.part s) h).flatMap (callsIn id) := by
  induction hrun with
  | start => rfl
  | @moves h t t' m hist he hturn ih =>
    rw [timed_concat, deeds_concat, List.flatMap_append, ih, callsBy_move, deed?_move]
    congr 1
    by_cases hm : m.mover? = some id
    · rw [if_pos hm, if_pos (partOf_of_happens hist hs hm he), Option.toList_some,
        List.flatMap_singleton, callsIn, if_pos hm]
    · rw [if_neg hm, List.map_nil]
      split
      · rw [Option.toList_some, List.flatMap_singleton, callsIn, if_neg hm]
      · rfl
  | stops _ _ _ _ ih =>
    rw [timed_concat, deeds_concat, List.flatMap_append, ih]
    rfl
  | waits _ _ _ _ ih => exact ih

theorem filter_callsIn (id T : Nat) (l : List (Nat × Deed ι τ)) :
    (l.flatMap (callsIn id)).filter (·.1 < T) = (l.filter (·.1 < T)).flatMap (callsIn id) := by
  have htime (d : Nat × Deed ι τ) : ∀ c ∈ callsIn id d, c.1 = d.1 := by
    intro c hc
    obtain ⟨time, d⟩ := d
    cases d with
    | move m calls =>
      rw [callsIn] at hc
      split at hc
      · obtain ⟨c, -, rfl⟩ := List.mem_map.1 hc
        rfl
      · cases hc
    | stop => cases hc
  induction l with
  | nil => rfl
  | cons d l ih =>
    rw [List.flatMap_cons, List.filter_append, ih, List.filter_cons]
    split
    · rename_i hd
      rw [List.flatMap_cons, List.filter_eq_self.2 fun c hc => by rwa [htime d c hc]]
    · rename_i hd
      rw [List.filter_eq_nil_iff.2 fun c hc => by rwa [htime d c hc], List.nil_append]

/-- What the loops of a part do is the same in two runs, as far as both have come. -/
theorem timed_same (hA : A.SameIn part A') {h' : List (Episode ι τ)}
    (hrun : Clocked V A O config C h t) (hrun' : Clocked V A' O config C h' t') {id T : Nat} {s : Subject ι} (hs : loop? config id = some s) (hpart : A.part s = part)
    (hT : T ≤ t.now) (hT' : T ≤ t'.now) :
    (timed id h).filter (·.1 < T) = (timed id h').filter (·.1 < T) := by
  subst hpart
  have hsame := Eager.same_before can_single (eager_of_clocked hA.left hrun)
    (eager_of_clocked hA hrun') hT hT'
  have hpart' : A'.part s = A.part s := by rw [hA.parts]
  rw [timed_eq hrun hs, timed_eq hrun' hs, hpart', hA.parts, filter_callsIn, filter_callsIn, hsame]

end
end World
end Collector
end MarketFeed
