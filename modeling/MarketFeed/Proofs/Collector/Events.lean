import MarketFeed.Proofs.Collector.Steps
import MarketFeed.Proofs.Tasks.History
import MarketFeed.Proofs.Tasks.Numbered
import Mathlib.Data.List.Nodup

/-!
# MarketFeed.Proofs.Collector.Events

What can happen to a collector, and what it comes to for one of its jobs.

* `Event`, `happens` — its jobs go on or halt in any order, it is started and stopped, its
  surroundings change, and time passes. Its calls are written to a log.
* `Occurs`, `occurs_of_happens` — all that can happen, and what comes of it.
* `happens_of_goes`, `happens_of_halts` — what a job can do can happen.
* `Sound` — the jobs have different numbers, and a batch that is under way is not empty.
* `Fares`, `fares_of_happens` — what an event does to one job.
-/

namespace MarketFeed
namespace Collector
namespace World

/-! ## Events -/

/-- What can happen to a collector. -/
inductive Event (σ ι : Type) where
  | move (m : Move)
  /-- Something changes around the collector. -/
  | around (s : σ)
  | start
  | stop
  | startPass (instrument : ι) (request : HistoryRequest)
  /-- The result of a pass is taken, or the pass is given up. -/
  | forget (id : Nat)
  | wait (time : Nat)

section

variable {σ ι ρ τ : Type}

def isPass (j : Job ι) : Bool :=
  match j.work with
  | .pass _ _ _ => true
  | _ => false

/-- What comes of an event, and none where it cannot happen. -/
def happens (V : Venue ι ρ τ) (S : Surroundings σ ι ρ τ) (e : Event σ ι)
    (t : Timed (Watched σ ι τ)) : Option (Timed (Watched σ ι τ)) :=
  match e with
  | .move m => (step V S.observed t.now m t.world).map fun w => { t with world := w }
  | .around s => some (t.update fun w => w.setAround (s, w.around.2))
  | .start => some (t.update fun w => w.start.2)
  | .stop => some (t.update fun w => w.stop)
  | .startPass instrument request =>
    some (t.update fun w => (w.startPass S.observed t.now instrument request).2)
  | .forget id =>
    if (t.world.job? id).any isPass then some (t.update fun w => w.forget id) else none
  | .wait time => if t.now ≤ time then some { t with now := time } else none

end

/-! ## All that can happen -/

section

variable {σ ι ρ τ : Type}

/-- All that can happen, and what comes of it. -/
inductive Occurs (V : Venue ι ρ τ) (S : Surroundings σ ι ρ τ) (t : Timed (Watched σ ι τ)) :
    Event σ ι → Timed (Watched σ ι τ) → Prop where
  | goes {j : Job ι} {calls : List (Call ι τ)} {s : σ} {work : Work ι}
      (hj : t.world.job? j.id = some j) (hg : WorkGoes V S t.now t.world j.work calls s work) :
      Occurs V S t (.move (.goOn j.id)) (t.update fun w => (w.called s calls).setWork j.id work)
  | halts {j : Job ι} {calls : List (Call ι τ)} {s : σ} (hj : t.world.job? j.id = some j)
      (hstopped : t.world.stopped = true) (hh : Halts S t.world.around.1 j.work calls s) :
      Occurs V S t (.move (.halt j.id))
        (t.update fun w => (w.called s calls).setWork j.id .ended)
  | finishes {run : Nat}
      (hover : ∀ j ∈ t.world.jobs, j.run = some run → j.work = .ended) :
      Occurs V S t (.move (.finish run)) (t.update fun w =>
        { w with
          runs := w.runs.filter (· ≠ run)
          jobs := w.jobs.filter (·.run ≠ some run)
          finished := w.finished ++ [t.now] })
  | changes (s : σ) : Occurs V S t (.around s) (t.update fun w => w.setAround (s, w.around.2))
  | starts : Occurs V S t .start (t.update fun w => w.start.2)
  | stops : Occurs V S t .stop (t.update fun w => w.stop)
  | fetches {instrument : ι} {request : HistoryRequest} {fetch : Nat} {s : σ}
      (hf : S.fetch t.now instrument request t.world.around.1 = (fetch, s)) :
      Occurs V S t (.startPass instrument request) (t.update fun w =>
        (w.called s [.fetch instrument request]).addJob none
          (.pass instrument request (.fetching fetch)))
  | forgets {j : Job ι} (hj : t.world.job? j.id = some j) (hpass : isPass j = true) :
      Occurs V S t (.forget j.id) (t.update fun w => w.forget j.id)
  | waits {time : Nat} (hle : t.now ≤ time) : Occurs V S t (.wait time) ⟨time, t.world⟩

/-! ## One job among others -/

/-- The jobs have different numbers, and a batch that is under way is not empty. -/
structure Sound (w : Watched σ ι τ) : Prop where
  ordered : (w.jobs.map Job.id).Pairwise (· < ·)
  numbered : ∀ j ∈ w.jobs, j.id < w.nextId
  filled : ∀ j ∈ w.jobs, j.work.Filled

/-- The work of a job that has just begun. -/
inductive Fresh : Work ι → Prop where
  | pass {instrument : ι} {request : HistoryRequest} {fetch : Nat} :
      Fresh (.pass instrument request (.fetching fetch))
  | poll {instrument : ι} {interval : Interval} : Fresh (.poll instrument interval .starting)
  | stream {instrument : ι} : Fresh (.stream instrument .starting)

theorem Fresh.filled {work : Work ι} (h : Fresh work) : work.Filled := by
  cases h <;> trivial

variable {V : Venue ι ρ τ} {S : Surroundings σ ι ρ τ} {w : Watched σ ι τ} {id : Nat} {j : Job ι}
  {work : Work ι} {t t' : Timed (Watched σ ι τ)} {e : Event σ ι}

theorem id_of_job? (h : w.job? id = some j) : j.id = id := by
  simpa using List.find?_some h

theorem mem_of_job? (h : w.job? id = some j) : j ∈ w.jobs := List.mem_of_find?_eq_some h

theorem job?_setWork_self (h : w.job? id = some j) :
    (w.setWork id work).job? id = some { j with work } := find?_update_self Job.id (fun _ h => h) h

theorem job?_setWork_of_ne {id' : Nat} (hne : id' ≠ id) :
    (w.setWork id work).job? id' = w.job? id' := find?_update_of_ne Job.id (fun _ h => h) hne

theorem job?_addJob (run : Option Nat) : (w.addJob run work).job? id =
    (w.job? id).or (if w.nextId = id then some ⟨w.nextId, run, work⟩ else none) := by
  simp only [addJob, job?, List.find?_append, List.find?_singleton, decide_eq_true_eq]

/-- Whether a job is there or not, an added job leaves it as it is or is the job. -/
theorem job?_addJob_cases (w : Watched σ ι τ) (run : Option Nat) (work : Work ι) (id : Nat) :
    (w.addJob run work).job? id = w.job? id ∨
      w.job? id = none ∧ (w.addJob run work).job? id = some ⟨id, run, work⟩ := by
  rw [job?_addJob]
  cases w.job? id with
  | some j => exact .inl rfl
  | none =>
    by_cases hid : w.nextId = id
    · rw [if_pos hid, hid]
      exact .inr ⟨rfl, rfl⟩
    · rw [if_neg hid]
      exact .inl rfl

/-- What a new run and each loop that is added keep, the start of all loops keeps. -/
theorem start_adds {P : Watched σ ι τ → Prop}
    (hrun : ∀ w, P w → P { w with nextId := w.nextId + 1, runs := w.runs ++ [w.nextId] })
    (hpoll : ∀ w run instrument interval, P w →
      P (w.addJob run (.poll instrument interval .starting)))
    (hstream : ∀ w run instrument, P w → P (w.addJob run (.stream instrument .starting)))
    (hw : P w) : P w.start.2 := by
  have hfold {α : Type} (f : α → Work ι) (run : Option Nat)
      (hf : ∀ w a, P w → P (w.addJob run (f a))) (l : List α) {w : Watched σ ι τ} (hw : P w) :
      P (l.foldl (fun w a => w.addJob run (f a)) w) := by
    induction l generalizing w with
    | nil => exact hw
    | cons a l ih => exact ih (hf w a hw)
  exact hfold _ _ (fun w i => hstream w _ i) _
    (hfold _ _ (fun w p => hpoll w _ p.1 p.2) _ (hrun w hw))

theorem start_keeps {P : Watched σ ι τ → Prop}
    (hrun : ∀ w, P w → P { w with nextId := w.nextId + 1, runs := w.runs ++ [w.nextId] })
    (hadd : ∀ w run work, Fresh work → P w → P (w.addJob run work)) (hw : P w) : P w.start.2 :=
  start_adds hrun (fun w run _ _ => hadd w run _ .poll) (fun w run _ => hadd w run _ .stream) hw

namespace Sound

theorem new (config : Config ι) (s : σ) : Sound (World.new config (s, ([] : List (Call ι τ)))) :=
  ⟨.nil, fun _ hj => absurd hj List.not_mem_nil, fun _ hj => absurd hj List.not_mem_nil⟩

theorem called (h : Sound w) (s : σ) (calls : List (Call ι τ)) : Sound (w.called s calls) :=
  ⟨h.ordered, h.numbered, h.filled⟩

theorem setWork (h : Sound w) (hwork : work.Filled) : Sound (w.setWork id work) where
  ordered := by
    have hids : (w.setWork id work).jobs.map Job.id = w.jobs.map Job.id :=
      map_number_update Job.id fun _ h => h
    rw [hids]
    exact h.ordered
  numbered := by
    intro j hj
    obtain ⟨i, hi, rfl⟩ := List.mem_map.1 hj
    have := h.numbered i hi
    split <;> exact this
  filled := by
    intro j hj
    obtain ⟨i, hi, rfl⟩ := List.mem_map.1 hj
    split
    · exact hwork
    · exact h.filled i hi

theorem addJob (h : Sound w) (run : Option Nat) (hwork : work.Filled) :
    Sound (w.addJob run work) where
  ordered := by
    rw [World.addJob, List.map_append, List.pairwise_append]
    refine ⟨h.ordered, List.pairwise_singleton _ _, ?_⟩
    intro a ha b hb
    obtain ⟨j, hj, rfl⟩ := List.mem_map.1 ha
    obtain rfl := List.mem_singleton.1 hb
    exact h.numbered j hj
  numbered := by
    intro j hj
    rcases List.mem_append.1 hj with hj | hj
    · exact Nat.lt_succ_of_lt (h.numbered j hj)
    · obtain rfl := List.mem_singleton.1 hj
      exact Nat.lt_succ_self _
  filled := by
    intro j hj
    rcases List.mem_append.1 hj with hj | hj
    · exact h.filled j hj
    · obtain rfl := List.mem_singleton.1 hj
      exact hwork

theorem filter (h : Sound w) {w' : Watched σ ι τ} (p : Job ι → Bool)
    (hjobs : w'.jobs = w.jobs.filter p) (hnext : w'.nextId = w.nextId) : Sound w' where
  ordered := by
    rw [hjobs]
    exact h.ordered.sublist ((List.filter_sublist).map _)
  numbered := by
    intro j hj
    rw [hjobs] at hj
    rw [hnext]
    exact h.numbered j (List.mem_filter.1 hj).1
  filled := by
    intro j hj
    rw [hjobs] at hj
    exact h.filled j (List.mem_filter.1 hj).1

/-- A job is found by its number. -/
theorem job?_of_mem (h : Sound w) (hj : j ∈ w.jobs) : w.job? j.id = some j := by
  cases hfound : w.job? j.id with
  | none => exact absurd (List.find?_eq_none.1 hfound j hj) (by simp)
  | some i =>
    have hnodup : (w.jobs.map Job.id).Nodup := h.ordered.imp Nat.ne_of_lt
    rw [List.inj_on_of_nodup_map hnodup (mem_of_job? hfound) hj (id_of_job? hfound)]

theorem job?_filter (h : Sound w) (w' : Watched σ ι τ) (p : Job ι → Bool)
    (hjobs : w'.jobs = w.jobs.filter p) (hnext : w'.nextId = w.nextId) (id : Nat) :
    w'.job? id = (w.job? id).filter p := by
  -- no other job of the same number can come up behind one that was removed
  cases hfound' : w'.job? id with
  | some j =>
    have hj := mem_of_job? hfound'
    rw [hjobs, List.mem_filter] at hj
    have hfound := h.job?_of_mem hj.1
    rw [id_of_job? hfound'] at hfound
    rw [hfound, Option.filter_some, if_pos hj.2]
  | none =>
    cases hfound : w.job? id with
    | none => rfl
    | some j =>
      rw [Option.filter_some, if_neg]
      intro hp
      have hj : j ∈ w'.jobs := by
        rw [hjobs]
        exact List.mem_filter.2 ⟨mem_of_job? hfound, hp⟩
      have hsome := (h.filter p hjobs hnext).job?_of_mem hj
      rw [id_of_job? hfound, hfound'] at hsome
      cases hsome

end Sound

/-! ## What an event comes to -/

theorem occurs_of_step {m : Move} (hsound : Sound t.world)
    (h : step V S.observed t.now m t.world = some w) : Occurs V S t (.move m) ⟨t.now, w⟩ := by
  cases m with
  | halt i =>
    obtain ⟨j, hj, hgo⟩ := Option.bind_eq_some_iff.1 h
    obtain ⟨hstopped, calls, s, hh, rfl⟩ := halt_cases hgo
    have hid := id_of_job? hj
    subst hid
    exact .halts hj hstopped hh
  | goOn i =>
    obtain ⟨j, hj, hgo⟩ := Option.bind_eq_some_iff.1 h
    obtain ⟨calls, s, work, hg, rfl⟩ := goOn_cases hgo (hsound.filled j (mem_of_job? hj))
    have hid := id_of_job? hj
    subst hid
    exact .goes hj hg
  | finish run =>
    simp only [step, finishRun] at h
    split at h
    · rename_i hover
      cases h
      refine .finishes ?_
      intro j hj hrun
      rw [Bool.and_eq_true, List.all_eq_true] at hover
      have hended := hover.2 j (List.mem_filter.2 ⟨hj, decide_eq_true hrun⟩)
      unfold isEnded at hended
      split at hended
      · assumption
      · cases hended
    · cases h

theorem occurs_of_happens (hsound : Sound t.world) (h : happens V S e t = some t') :
    Occurs V S t e t' := by
  cases e with
  | move m =>
    obtain ⟨w, hw, rfl⟩ := Option.map_eq_some_iff.1 h
    exact occurs_of_step hsound hw
  | forget id =>
    simp only [happens] at h
    split at h
    · rename_i hany
      cases h
      obtain ⟨j, hj, hpass⟩ := (Option.any_eq_true _ _).1 hany
      have hid := id_of_job? hj
      subst hid
      exact .forgets hj hpass
    · cases h
  | wait time =>
    simp only [happens] at h
    split at h
    · rename_i hle
      cases h
      exact .waits hle
    · cases h
  | around s => cases h; exact .changes s
  | start => cases h; exact .starts
  | stop => cases h; exact .stops
  | startPass instrument request => cases h; exact .fetches rfl

/-- What a job can do can happen. -/
theorem happens_of_goes {calls : List (Call ι τ)} {s : σ} (hsound : Sound t.world)
    (hj : t.world.job? j.id = some j) (hg : WorkGoes V S t.now t.world j.work calls s work) :
    happens V S (.move (.goOn j.id)) t =
      some (t.update fun w => (w.called s calls).setWork j.id work) := by
  rw [happens, step, hj, Option.bind_some,
    goOn_of_goes hg (hsound.filled j (mem_of_job? hj)), Option.map_some]
  rfl

theorem happens_of_halts {calls : List (Call ι τ)} {s : σ} (hj : t.world.job? j.id = some j)
    (hstopped : t.world.stopped = true) (hh : Halts S t.world.around.1 j.work calls s) :
    happens V S (.move (.halt j.id)) t =
      some (t.update fun w => (w.called s calls).setWork j.id .ended) := by
  rw [happens, step, hj, Option.bind_some, halt_of_halts hstopped hh, Option.map_some]
  rfl

theorem LoopGoes.filled {now : Nat} {instrument : ι} {stage : StreamStage} {calls : List (Call ι τ)}
    {s : σ} (h : LoopGoes V S now w instrument stage calls s work)
    (hfilled : (Work.stream instrument stage).Filled) : work.Filled := by
  cases h with
  | takes _ _ hsome => exact hsome
  | stores | retries => exact hfilled
  | _ => trivial

theorem WorkGoes.filled {now : Nat} {work' : Work ι} {calls : List (Call ι τ)} {s : σ}
    (h : WorkGoes V S now w work calls s work') (hfilled : work.Filled) : work'.Filled := by
  cases h with
  | pass h => trivial
  | poll h => cases h <;> trivial
  | stream h => exact h.filled hfilled

theorem Sound.next (h : Sound t.world) (he : happens V S e t = some t') : Sound t'.world := by
  cases occurs_of_happens h he with
  | @goes j calls s work hj hg =>
    exact (h.called s calls).setWork (hg.filled (h.filled j (mem_of_job? hj)))
  | @halts j calls s hj hstopped hh => exact (h.called s calls).setWork trivial
  | finishes hover => exact h.filter _ rfl rfl
  | forgets hj hpass => exact h.filter _ rfl rfl
  | starts =>
    refine start_keeps ?_ (fun w run work hfresh hw => hw.addJob run hfresh.filled) h
    intro w hw
    exact ⟨hw.ordered, fun j hj => Nat.lt_succ_of_lt (hw.numbered j hj), hw.filled⟩
  | fetches hf => exact (h.called _ _).addJob none trivial
  | _ => exact ⟨h.ordered, h.numbered, h.filled⟩

/-- What an event does to the job of some number. -/
inductive Fares (V : Venue ι ρ τ) (S : Surroundings σ ι ρ τ) (id : Nat) (t : Timed (Watched σ ι τ))
    (e : Event σ ι) (t' : Timed (Watched σ ι τ)) : Prop where
  | goes {j : Job ι} {calls : List (Call ι τ)} {s : σ} {work : Work ι}
      (he : e = .move (.goOn id)) (hj : t.world.job? id = some j)
      (hg : WorkGoes V S t.now t.world j.work calls s work)
      (ht : t' = t.update fun w => (w.called s calls).setWork id work)
      (hj' : t'.world.job? id = some { j with work })
  | halts {j : Job ι} {calls : List (Call ι τ)} {s : σ} (he : e = .move (.halt id))
      (hj : t.world.job? id = some j) (hstopped : t.world.stopped = true)
      (hh : Halts S t.world.around.1 j.work calls s)
      (ht : t' = t.update fun w => (w.called s calls).setWork id .ended)
      (hj' : t'.world.job? id = some { j with work := .ended })
  | begins {j : Job ι} (he : e = .start ∨ ∃ instrument request, e = .startPass instrument request)
      (hj : t.world.job? id = none) (hj' : t'.world.job? id = some j) (hfresh : Fresh j.work)
  /-- It has ended, or it is a pass. -/
  | leaves {j : Job ι} (he : e = .forget id ∨ ∃ run, e = .move (.finish run))
      (hj : t.world.job? id = some j) (hover : j.work = .ended ∨ isPass j = true)
      (hj' : t'.world.job? id = none)
  | stays (he : e ≠ .move (.goOn id)) (hj' : t'.world.job? id = t.world.job? id)

theorem job?_start (w : Watched σ ι τ) (id : Nat) : w.start.2.job? id = w.job? id ∨
    w.job? id = none ∧ ∃ j, w.start.2.job? id = some j ∧ Fresh j.work := by
  refine start_keeps (P := fun w' : Watched σ ι τ => w'.job? id = w.job? id ∨
    w.job? id = none ∧ ∃ j, w'.job? id = some j ∧ Fresh j.work) (fun _ h => h) ?_ (.inl rfl)
  intro w' run work hfresh h
  rcases job?_addJob_cases w' run work id with hsame | ⟨hnone, hsome⟩
  · rwa [hsame]
  · rw [hnone] at h
    rcases h with hold | ⟨hold, j, hj, -⟩
    · exact .inr ⟨hold.symm, _, hsome, hfresh⟩
    · cases hj

theorem fares_of_happens (hsound : Sound t.world) (h : happens V S e t = some t') (id : Nat) :
    Fares V S id t e t' := by
  cases occurs_of_happens hsound h with
  | @goes j calls s work hj hg =>
    by_cases hid : id = j.id
    · subst hid
      exact .goes rfl hj hg rfl (job?_setWork_self hj)
    · exact .stays (by simpa using Ne.symm hid) (job?_setWork_of_ne hid)
  | @halts j calls s hj hstopped hh =>
    by_cases hid : id = j.id
    · subst hid
      exact .halts rfl hj hstopped hh rfl (job?_setWork_self hj)
    · exact .stays (by simp) (job?_setWork_of_ne hid)
  | @finishes run hover =>
    have hfilter := hsound.job?_filter { t.world with
      runs := t.world.runs.filter (· ≠ run)
      jobs := t.world.jobs.filter (·.run ≠ some run)
      finished := t.world.finished ++ [t.now] } _ rfl rfl id
    cases hj : t.world.job? id with
    | none =>
      rw [hj] at hfilter
      exact .stays (by simp) (hfilter.trans hj.symm)
    | some j =>
      rw [hj, Option.filter_some] at hfilter
      by_cases hrun : j.run = some run
      · rw [if_neg (by simpa using hrun)] at hfilter
        exact .leaves (.inr ⟨run, rfl⟩) hj (.inl (hover j (mem_of_job? hj) hrun)) hfilter
      · rw [if_pos (by simpa using hrun)] at hfilter
        exact .stays (by simp) (hfilter.trans hj.symm)
  | starts =>
    rcases job?_start t.world id with hsame | ⟨hnone, j, hj, hfresh⟩
    · exact .stays (by simp) hsame
    · exact .begins (.inl rfl) hnone hj hfresh
  | @fetches instrument request fetch s hf =>
    rcases job?_addJob_cases (t.world.called s [.fetch instrument request]) none
      (.pass instrument request (.fetching fetch)) id with hsame | ⟨hnone, hsome⟩
    · exact .stays (by simp) hsame
    · exact .begins (.inr ⟨_, _, rfl⟩) hnone hsome .pass
  | @forgets j hj hpass =>
    have hfilter := hsound.job?_filter (t.world.forget j.id) _ rfl rfl id
    by_cases hid : id = j.id
    · subst hid
      rw [hj, Option.filter_some, if_neg (by simp)] at hfilter
      exact .leaves (.inl rfl) hj (.inr hpass) hfilter
    · refine .stays (by simp) (hfilter.trans ?_)
      cases hi : t.world.job? id with
      | none => rfl
      | some i => rw [Option.filter_some, if_pos (by simpa [id_of_job? hi] using hid)]
  | _ => exact .stays (by simp) rfl

/-! ## The log -/

/-- The calls of an incident. -/
def callsAt (x : Incident (Timed (Watched σ ι τ)) (Event σ ι)) : List (Call ι τ) :=
  x.after.world.around.2.drop x.before.world.around.2.length

theorem callsAt_of_log {x : Incident (Timed (Watched σ ι τ)) (Event σ ι)} {calls : List (Call ι τ)}
    (h : x.after.world.around.2 = x.before.world.around.2 ++ calls) : callsAt x = calls := by
  rw [callsAt, h, List.drop_left]

theorem PassGoes.passesTicks {now : Nat} {s s' : σ} {instrument : ι} {interval : Interval}
    {stage stage' : PassStage} {calls : List (Call ι τ)}
    (h : PassGoes V S now s instrument interval stage calls s' stage') :
    ∀ c ∈ calls, c.passesTicks = false := by
  cases h <;> simp [Call.passesTicks]

/-- Only streaming loops pass ticks on. -/
theorem WorkGoes.passesTicks {now : Nat} {work' : Work ι} {calls : List (Call ι τ)} {s : σ}
    (h : WorkGoes V S now w work calls s work')
    (hpasses : ∃ c ∈ calls, c.passesTicks = true) :
    ∃ instrument stage, work = .stream instrument stage := by
  obtain ⟨c, hc, hpasses⟩ := hpasses
  cases h with
  | pass h => exact absurd hpasses (by rw [h.passesTicks c hc]; exact Bool.false_ne_true)
  | poll h =>
    cases h with
    | passes h => exact absurd hpasses (by rw [h.passesTicks c hc]; exact Bool.false_ne_true)
    | asks =>
      obtain rfl := List.mem_singleton.1 hc
      cases hpasses
    | _ => exact absurd hc List.not_mem_nil
  | @stream instrument stage _ _ _ h => exact ⟨instrument, stage, rfl⟩

theorem Halts.passesTicks {s s' : σ} {calls : List (Call ι τ)} (h : Halts S s work calls s') :
    ∀ c ∈ calls, c.passesTicks = false := by
  cases h <;> simp [Call.passesTicks]

theorem log_start (w : Watched σ ι τ) : w.start.2.around = w.around :=
  start_keeps (P := fun w' : Watched σ ι τ => w'.around = w.around) (fun _ h => h)
    (fun _ _ _ _ h => h) rfl

theorem Occurs.log (h : Occurs V S t e t') :
    ∃ calls, t'.world.around.2 = t.world.around.2 ++ calls ∧
      ((∃ c ∈ calls, c.passesTicks = true) → ∃ j instrument stage, e = .move (.goOn j.id) ∧
        t.world.job? j.id = some j ∧ j.work = .stream instrument stage) := by
  have hquiet {calls : List (Call ι τ)} {P : Prop} (hno : ∀ c ∈ calls, c.passesTicks = false)
      (hp : ∃ c ∈ calls, c.passesTicks = true) : P := by
    obtain ⟨c, hc, hp⟩ := hp
    rw [hno c hc] at hp
    cases hp
  have hnone : ∀ c ∈ ([] : List (Call ι τ)), c.passesTicks = false :=
    fun c hc => absurd hc List.not_mem_nil
  cases h with
  | goes hj hg =>
    refine ⟨_, rfl, fun hp => ?_⟩
    obtain ⟨instrument, stage, hw⟩ := hg.passesTicks hp
    exact ⟨_, instrument, stage, rfl, hj, hw⟩
  | halts hj hstopped hh => exact ⟨_, rfl, hquiet hh.passesTicks⟩
  | fetches hf => exact ⟨_, rfl, hquiet (by simp [Call.passesTicks])⟩
  | starts =>
    refine ⟨[], ?_, hquiet hnone⟩
    rw [List.append_nil]
    exact congrArg Prod.snd (log_start _)
  | _ => exact ⟨[], (List.append_nil _).symm, hquiet hnone⟩

/-- The log only grows, and ticks are passed on only when a streaming loop goes on. -/
theorem log_of_happens (hsound : Sound t.world) (h : happens V S e t = some t') :
    t'.world.around.2 = t.world.around.2 ++ callsAt ⟨t, e, t'⟩ ∧
      ((∃ c ∈ callsAt ⟨t, e, t'⟩, c.passesTicks = true) →
        ∃ j instrument stage, e = .move (.goOn j.id) ∧ t.world.job? j.id = some j ∧
          j.work = .stream instrument stage) := by
  obtain ⟨calls, hlog, hpasses⟩ := (occurs_of_happens hsound h).log
  rw [callsAt_of_log hlog]
  exact ⟨hlog, hpasses⟩

end

end World
end Collector
end MarketFeed
