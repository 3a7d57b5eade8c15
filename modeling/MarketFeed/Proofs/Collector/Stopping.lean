import MarketFeed.Proofs.Collector.Trades

/-!
# MarketFeed.Proofs.Collector.Stopping

A collector that was stopped begins nothing new, and completes what is under way.

* `Call.begins`, `begins_of_happens` — the calls that begin something, and who still makes them.
* `callsBy`, `opened`, `dropped`, `streams_of_history` — a loop drops the streams that it opened.
* `pass?`, `pass_finally` — a pass whose fetch is answered stores its rows.
* `batch_finally` — a batch is stored and sent on, and the answer to that is waited for.
* `stopped_begins_nothing` — every collector, whatever happens and whenever it is stopped.
-/

namespace MarketFeed
namespace Collector

namespace Call

variable {ι τ : Type}

/-- Whether a call begins something: a fetch or a stream. -/
def begins : Call ι τ → Bool
  | .fetch _ _ => true
  | .openStream _ _ => true
  | _ => false

/-- The stream that was opened. -/
def opened? : Call ι τ → Option Nat
  | .openStream _ stream => stream
  | _ => none

/-- The stream that was dropped. -/
def dropped? : Call ι τ → Option Nat
  | .dropStream stream => some stream
  | _ => none

end Call

namespace World

section

variable {σ ι ρ τ : Type}

/-- The calls that a job makes in an incident, going on or halting. -/
def callsBy (id : Nat) (x : Incident (Timed (Watched σ ι τ)) (Event σ ι)) : List (Call ι τ) :=
  match x.event with
  | .move (.goOn i) => if i = id then callsAt x else []
  | .move (.halt i) => if i = id then callsAt x else []
  | _ => []

/-- The streams that a job opened. -/
def opened (id : Nat) (h : List (Incident (Timed (Watched σ ι τ)) (Event σ ι))) : List Nat :=
  (h.flatMap (callsBy id)).filterMap Call.opened?

/-- The streams that a job dropped. -/
def dropped (id : Nat) (h : List (Incident (Timed (Watched σ ι τ)) (Event σ ι))) : List Nat :=
  (h.flatMap (callsBy id)).filterMap Call.dropped?

variable {V : Venue ι ρ τ} {S : Surroundings σ ι ρ τ} {config : Config ι} {a : σ} {start id : Nat}
  {t t' : Timed (Watched σ ι τ)} {e : Event σ ι}
  {h : List (Incident (Timed (Watched σ ι τ)) (Event σ ι))} {now : Nat} {w : Watched σ ι τ}
  {work work' : Work ι} {calls : List (Call ι τ)} {s s' : σ}

/-! ## Nothing new -/

theorem PassGoes.begins {instrument : ι} {interval : Interval} {stage stage' : PassStage}
    (h : PassGoes V S now s instrument interval stage calls s' stage') :
    ∀ c ∈ calls, c.begins = false := by
  cases h <;> simp [Call.begins]

/-- A job begins something only if the collector was not stopped. -/
theorem WorkGoes.begins (h : WorkGoes V S now w work calls s work')
    (hbegins : ∃ c ∈ calls, c.begins = true) : w.stopped = false := by
  obtain ⟨c, hc, hbegins⟩ := hbegins
  cases h with
  | pass h => exact absurd hbegins (by simp [h.begins c hc])
  | poll h =>
    cases h with
    | asks hgoing => exact hgoing
    | passes h => exact absurd hbegins (by simp [h.begins c hc])
    | _ => exact absurd hc List.not_mem_nil
  | stream h =>
    cases h with
    | opens hgoing | fails hgoing => exact hgoing
    | passesOver | takes =>
      obtain ⟨trade, -, rfl⟩ := List.mem_map.1 hc
      cases hbegins
    | ends | stores | retries | loses | forwards =>
      obtain rfl := List.mem_singleton.1 hc
      cases hbegins
    | _ => exact absurd hc List.not_mem_nil

theorem Halts.begins (h : Halts S s work calls s') : ∀ c ∈ calls, c.begins = false := by
  cases h <;> simp [Call.begins]

/-- Every call is made by a job, or it is the fetch of a pass that is requested. -/
theorem calls_of_happens (hsound : Sound t.world) (he : happens V S e t = some t') :
    callsAt ⟨t, e, t'⟩ = [] ∨ (∃ id, callsAt ⟨t, e, t'⟩ = callsBy id ⟨t, e, t'⟩) ∨
      ∃ instrument request, e = .startPass instrument request ∧
        callsAt ⟨t, e, t'⟩ = [.fetch instrument request] := by
  cases occurs_of_happens hsound he with
  | @goes j => exact .inr (.inl ⟨j.id, (if_pos rfl).symm⟩)
  | @halts j => exact .inr (.inl ⟨j.id, (if_pos rfl).symm⟩)
  | @fetches instrument request => exact .inr (.inr ⟨instrument, request, rfl, callsAt_of_log rfl⟩)
  | starts =>
    exact .inl (callsAt_of_log
      ((congrArg Prod.snd (log_start t.world)).trans (List.append_nil _).symm))
  | _ => exact .inl (callsAt_of_log (List.append_nil _).symm)

/-- Once the collector was stopped, only a requested pass still fetches. -/
theorem begins_of_happens (hsound : Sound t.world) (he : happens V S e t = some t')
    (hstopped : t.world.stopped = true) {c : Call ι τ} (hc : c ∈ callsAt ⟨t, e, t'⟩)
    (hbegins : c.begins = true) :
    ∃ instrument request, e = .startPass instrument request ∧ c = .fetch instrument request := by
  cases occurs_of_happens hsound he with
  | goes hj hg =>
    rw [callsAt_of_log rfl] at hc
    exact absurd (hg.begins ⟨c, hc, hbegins⟩) (by simp [hstopped])
  | halts hj _ hh =>
    rw [callsAt_of_log rfl] at hc
    exact absurd hbegins (by simp [hh.begins c hc])
  | @fetches instrument request =>
    rw [callsAt_of_log rfl] at hc
    exact ⟨instrument, request, rfl, List.mem_singleton.1 hc⟩
  | starts =>
    rw [callsAt_of_log ((congrArg Prod.snd (log_start t.world)).trans (List.append_nil _).symm)]
      at hc
    exact absurd hc List.not_mem_nil
  | _ =>
    rw [callsAt_of_log (List.append_nil _).symm] at hc
    exact absurd hc List.not_mem_nil

theorem stopped_of_history {t₀ : Timed (Watched σ ι τ)} (hsound : Sound t₀.world)
    (hist : History (happens V S) t₀ h t) (hstopped : t₀.world.stopped = true) :
    Sound t.world ∧ t.world.stopped = true ∧ ∀ x ∈ h, ∀ c ∈ callsAt x, c.begins = true →
      ∃ instrument request, x.event = .startPass instrument request ∧
        c = .fetch instrument request := by
  induction hist with
  | nil => exact ⟨hsound, hstopped, fun x hx => absurd hx List.not_mem_nil⟩
  | snoc _ he ih =>
    obtain ⟨hsound', hstopped', hquiet⟩ := ih
    refine ⟨hsound'.next he, stopped_of_happens hsound' he hstopped', ?_⟩
    intro x hx c hc hbegins
    rcases List.mem_append.1 hx with hx | hx
    · exact hquiet x hx c hc hbegins
    · obtain rfl := List.mem_singleton.1 hx
      exact begins_of_happens hsound' he hstopped' hc hbegins

/-! ## Streams -/

theorem callsBy_of_ne {x : Incident (Timed (Watched σ ι τ)) (Event σ ι)}
    (hgo : x.event ≠ .move (.goOn id)) (hhalt : x.event ≠ .move (.halt id)) :
    callsBy id x = [] := by
  unfold callsBy
  split
  · rename_i i hi
    refine if_neg ?_
    rintro rfl
    exact hgo hi
  · rename_i i hi
    refine if_neg ?_
    rintro rfl
    exact hhalt hi
  · rfl

theorem PassGoes.streams {instrument : ι} {interval : Interval} {stage stage' : PassStage}
    (h : PassGoes V S now s instrument interval stage calls s' stage') :
    calls.filterMap Call.opened? = [] ∧ calls.filterMap Call.dropped? = [] := by
  cases h <;> exact ⟨rfl, rfl⟩

/-- The stream that a loop had and the one that it opens are dropped or still there. -/
theorem WorkGoes.streams (h : WorkGoes V S now w work calls s work') :
    (stream? work).toList ++ calls.filterMap Call.opened? =
      calls.filterMap Call.dropped? ++ (stream? work').toList := by
  cases h with
  | pass h => rw [h.streams.1, h.streams.2]; rfl
  | poll h =>
    cases h with
    | passes h => rw [h.streams.1, h.streams.2]; rfl
    | _ => rfl
  | stream h =>
    cases h with
    | @passesOver stream first rest | @takes stream first rest =>
      have hopened : ((first :: rest).map (Call.receive (ι := ι) stream)).filterMap
          Call.opened? = [] := by simp [Call.opened?]
      have hdropped : ((first :: rest).map (Call.receive (ι := ι) stream)).filterMap
          Call.dropped? = [] := by simp [Call.dropped?]
      rw [hopened, hdropped]
      rfl
    | _ => rfl

theorem Halts.streams (h : Halts S s work calls s') :
    (stream? work).toList ++ calls.filterMap Call.opened? = calls.filterMap Call.dropped? := by
  cases h <;> rfl

/-- The streams that a loop opened are those that it dropped, and the one that it has. -/
theorem streams_of_history (hist : History (happens V S) ⟨start, .new config (a, [])⟩ h t)
    (id : Nat) : opened id h = dropped id h ++ (held id t).toList := by
  induction hist with
  | nil => rfl
  | @snoc h t t' e hist he ih =>
    have hsound := sound_of_history hist
    -- what is said of the whole follows from the same of the last incident
    suffices hone : (held id t).toList ++ (callsBy id ⟨t, e, t'⟩).filterMap Call.opened? =
        (callsBy id ⟨t, e, t'⟩).filterMap Call.dropped? ++ (held id t').toList by
      rw [opened, dropped, flatMap_concat, List.filterMap_append, List.filterMap_append,
        List.append_assoc, ← hone, ← List.append_assoc]
      exact congrArg (· ++ _) ih
    by_cases hgo : e = .move (.goOn id)
    · subst hgo
      obtain ⟨j, calls, s, work, hj, hg, ht, hj'⟩ := goes_of_goOn hsound he
      have hcalls : callsBy id ⟨t, .move (.goOn id), t'⟩ = calls :=
        (if_pos rfl).trans (callsAt_of_log (by rw [ht]; rfl))
      rw [hcalls, held_of_job hj, held_of_job hj']
      exact hg.streams
    · by_cases hhalt : e = .move (.halt id)
      · subst hhalt
        obtain ⟨-, j, calls, s, hj, hh, ht, hj'⟩ := halts_of_halt hsound he
        have hcalls : callsBy id ⟨t, .move (.halt id), t'⟩ = calls :=
          (if_pos rfl).trans (callsAt_of_log (by rw [ht]; rfl))
        rw [hcalls, held_of_job hj, held_of_job hj', hh.streams]
        exact (List.append_nil _).symm
      · rw [callsBy_of_ne hgo hhalt, held_of_other hsound he hgo hhalt]
        exact List.append_nil _

/-! ## What is under way -/

/-- The pass that a job makes over history: its instrument, its interval, and where it is. -/
def pass? : Work ι → Option (ι × Interval × PassStage)
  | .pass instrument request stage => some (instrument, request.interval, stage)
  | .poll instrument interval (.passing stage) => some (instrument, interval, stage)
  | _ => none

/-- The calls by which the bars of a pass are stored: one, unless there are none. -/
inductive Stored (bars : List Bar) : List (Call ι τ) → Except Failure Nat → Prop where
  | nothing (h : bars = []) : Stored bars [] (.ok 0)
  | once {r : Except StoreError Nat} (h : bars ≠ []) :
      Stored bars [.storeBars bars r.isOk] (r.mapError .store)

/-- A pass over history, or a batch of ticks, is under way. -/
def isBusy : Work ι → Bool
  | .pass _ _ (.fetching _) => true
  | .pass _ _ (.storing _) => true
  | .poll _ _ (.passing _) => true
  | .stream _ (.storing _ _ _) => true
  | .stream _ (.forwarding _ _) => true
  | .stream _ (.publishing _ _) => true
  | _ => false

theorem Halts.not_busy (h : Halts S s work calls s') : isBusy work = false := by
  cases h <;> rfl

/-- A job that has not ended does not disappear, unless it is a pass that is given up. -/
theorem job_of_unforgotten {j : Job ι} (hsound : Sound t.world) (he : happens V S e t = some t')
    (hj : t.world.job? id = some j) (hgoing : j.work ≠ .ended)
    (hkept : isPass j = true → e ≠ .forget id) : t'.world.job? id ≠ none := by
  cases fares_of_happens hsound he id with
  | goes _ _ _ _ hj' | halts _ _ _ _ _ hj' | begins _ _ hj' _ => simp [hj']
  | stays _ hj' => simp [hj', hj]
  | leaves he' =>
    rcases he' with rfl | ⟨run, rfl⟩
    · cases occurs_of_happens hsound he with
      | forgets hj' hpass =>
        cases hj.symm.trans hj'
        exact absurd rfl (hkept hpass)
    · cases occurs_of_happens hsound he with
      | finishes hover =>
        have hrun : j.run ≠ some run := fun hrun => hgoing (hover j (mem_of_job? hj) hrun)
        have hfilter := hsound.job?_filter { t.world with
          runs := t.world.runs.filter (· ≠ run)
          jobs := t.world.jobs.filter (·.run ≠ some run)
          finished := t.world.finished ++ [t.now] } _ rfl rfl id
        rw [hj, Option.filter_some, if_pos (by simpa using hrun)] at hfilter
        intro hnone
        cases hnone.symm.trans hfilter

/-- What is under way waits for nothing but its own answer: it is not halted, and nothing else that
happens changes it. -/
theorem stays_of_busy {j : Job ι} (hsound : Sound t.world) (he : happens V S e t = some t')
    (hj : t.world.job? id = some j) (hbusy : isBusy j.work = true) (hgo : e ≠ .move (.goOn id))
    (hkept : isPass j = true → e ≠ .forget id) : t'.world.job? id = some j := by
  have hgoing : j.work ≠ .ended := by
    intro hw
    rw [hw] at hbusy
    cases hbusy
  have hthere := job_of_unforgotten hsound he hj hgoing hkept
  cases fares_of_happens hsound he id with
  | goes he' => exact absurd he' hgo
  | halts _ hj' _ hh =>
    cases hj.symm.trans hj'
    exact absurd hbusy (by simp [hh.not_busy])
  | begins _ hj' => cases hj.symm.trans hj'
  | leaves _ _ _ hj' => exact absurd hj' hthere
  | stays _ hj' => exact hj'.trans hj

/-- A pass that goes on is where its answer puts it. -/
theorem goes_of_pass {j : Job ι} {instrument : ι} {interval : Interval} {stage : PassStage}
    (hsound : Sound t.world) (he : happens V S (.move (.goOn id)) t = some t')
    (hj : t.world.job? id = some j) (hpass : pass? j.work = some (instrument, interval, stage))
    (hunfinished : ∀ result, stage ≠ .finished result) :
    ∃ calls s j' stage', PassGoes V S t.now t.world.around.1 instrument interval stage calls s
        stage' ∧ t'.world.job? id = some j' ∧
      pass? j'.work = some (instrument, interval, stage') ∧ isPass j' = isPass j ∧
      callsBy id ⟨t, .move (.goOn id), t'⟩ = calls := by
  obtain ⟨i, calls, s, work, hi, hg, ht, hj'⟩ := goes_of_goOn hsound he
  cases hj.symm.trans hi
  have hcalls : callsBy id ⟨t, .move (.goOn id), t'⟩ = calls :=
    (if_pos rfl).trans (callsAt_of_log (by rw [ht]; rfl))
  cases hw : j.work with
  | pass i request stage₀ =>
    rw [hw] at hg hpass
    cases hpass
    cases hg with
    | pass h => exact ⟨_, _, _, _, h, hj', rfl, by rw [isPass, isPass, hw], hcalls⟩
  | poll i iv pollStage =>
    rw [hw] at hg hpass
    cases hg with
    | poll hg =>
      cases hg with
      | passes h =>
        cases hpass
        exact ⟨_, _, _, _, h, hj', rfl, by rw [isPass, isPass, hw], hcalls⟩
      | @pauses result =>
        cases hpass
        exact absurd rfl (hunfinished result)
      | _ => cases hpass
  | _ =>
    rw [hw] at hpass
    cases hpass

theorem busy_of_pass {instrument : ι} {interval : Interval} {stage : PassStage}
    (hpass : pass? work = some (instrument, interval, stage))
    (hunfinished : ∀ result, stage ≠ .finished result) : isBusy work = true := by
  unfold pass? at hpass
  split at hpass
  · cases hpass
    cases stage with
    | finished result => exact absurd rfl (hunfinished result)
    | _ => rfl
  · rfl
  · cases hpass

/-- A pass that does not wait for the answer to its fetch can go on. -/
theorem ready_of_pass {j : Job ι} {instrument : ι} {interval : Interval} {stage : PassStage}
    (hj : t.world.job? id = some j) (hpass : pass? j.work = some (instrument, interval, stage))
    (hready : (∃ fetch, stage = .fetching fetch ∧
      S.fetched? t.now fetch t.world.around.1 ≠ none) ∨ ∃ bars, stage = .storing bars) :
    happens V S (.move (.goOn id)) t ≠ none := by
  have hgoes : t.world.goPass V S.observed t.now instrument interval stage ≠ none := by
    rcases hready with ⟨fetch, rfl, hfetched⟩ | ⟨bars, rfl⟩
    · rw [goPass_fetching]
      simpa [Surroundings.observed] using hfetched
    · simp [goPass_storing]
  have hunfinished : ∀ result, stage ≠ .finished result := by
    rcases hready with ⟨fetch, rfl, -⟩ | ⟨bars, rfl⟩ <;> simp
  simp only [happens, step, hj, Option.bind_some, goOn]
  unfold pass? at hpass
  split at hpass
  · rename_i hw
    cases hpass
    simpa [hw] using hgoes
  · rename_i hw
    cases hpass
    simpa [hw, goPoll_passing hunfinished] using hgoes
  · cases hpass

/-- The source answers the fetch of a pass in the end, however long that takes. -/
def FetchAnswered (S : Surroundings σ ι ρ τ) (s : Nat → Timed (Watched σ ι τ)) (id : Nat) : Prop :=
  ∀ i j instrument interval fetch, pass? j.work = some (instrument, interval, .fetching fetch) →
    (∀ k, i ≤ k → (s k).world.job? id = some j) →
      ∃ k, ∀ m, k ≤ m → S.fetched? (s m).now fetch (s m).world.around.1 ≠ none

section

variable {s : Nat → Timed (Watched σ ι τ)} {e : Nat → Event σ ι}

/-- What is under way, and can go on for good if nothing else changes, stays as it is until it goes
on. -/
theorem goes_finally (hend : Endless (happens V S) s e) (hsound : ∀ k, Sound (s k).world)
    (hjust : Just (happens V S) s e (.move (.goOn id))) {i : Nat} {j : Job ι}
    (hj : (s i).world.job? id = some j) (hbusy : isBusy j.work = true)
    (hkept : isPass j = true → ∀ k, e k ≠ .forget id)
    (hready : (∀ k, i ≤ k → (s k).world.job? id = some j) →
      ∃ k, ∀ m, k ≤ m → happens V S (.move (.goOn id)) (s m) ≠ none) :
    ∃ k, i ≤ k ∧ (∀ l, i ≤ l → l ≤ k → (s l).world.job? id = some j) ∧
      e k = .move (.goOn id) := by
  refine hjust.comes (P := fun k => ∀ l, i ≤ l → l ≤ k → (s l).world.job? id = some j) ?_ ?_ ?_
  · intro l hil hli
    rwa [Nat.le_antisymm hli hil]
  · intro k hik hlast hgo l hil hlk
    rcases Nat.lt_or_eq_of_le hlk with hlt | rfl
    · exact hlast l hil (Nat.le_of_lt_succ hlt)
    · exact stays_of_busy (hsound k) (hend.goes k) (hlast k hik (Nat.le_refl k)) hbusy hgo
        fun hpass => hkept hpass k
  · exact fun hlast => hready fun k hk => hlast k hk k hk (Nat.le_refl k)

/-- What becomes of a pass whose fetch is under way: the fetch is answered, and then the bars of its
rows are stored, or the pass has failed. -/
inductive Completes (V : Venue ι ρ τ) (S : Surroundings σ ι ρ τ)
    (s : Nat → Timed (Watched σ ι τ)) (e : Nat → Event σ ι) (id i : Nat) (instrument : ι)
    (interval : Interval) (fetch : Nat) : Prop where
  | stores {k m : Nat} {rows : List ρ} {around : σ} {j : Job ι} {result : Except Failure Nat}
      (hik : i ≤ k) (hk : e k = .move (.goOn id))
      (hf : S.fetched? (s k).now fetch (s k).world.around.1 = some (.ok rows, around))
      (hkm : k < m) (hm : e m = .move (.goOn id))
      (hbetween : ∀ l, k < l → l ≤ m → ∃ j, (s l).world.job? id = some j ∧
        pass? j.work = some (instrument, interval, .storing (V.bars instrument interval rows)))
      (hcalls : Stored (V.bars instrument interval rows)
        (callsBy id ⟨s m, e m, s (m + 1)⟩) result)
      (hj : (s (m + 1)).world.job? id = some j)
      (hover : pass? j.work = some (instrument, interval, .finished result))
  | fails {k : Nat} {error : VenueError} {around : σ} {j : Job ι} (hik : i ≤ k)
      (hk : e k = .move (.goOn id))
      (hf : S.fetched? (s k).now fetch (s k).world.around.1 = some (.error error, around))
      (hj : (s (k + 1)).world.job? id = some j)
      (hover : pass? j.work = some (instrument, interval, .finished (.error (.venue error))))

/-- A pass whose fetch is under way is completed, whether the collector was stopped or not. -/
theorem pass_finally (hend : Endless (happens V S) s e) (hsound : ∀ k, Sound (s k).world)
    (hjust : Just (happens V S) s e (.move (.goOn id))) (hanswered : FetchAnswered S s id)
    {i : Nat} {j : Job ι} {instrument : ι} {interval : Interval} {fetch : Nat}
    (hj : (s i).world.job? id = some j) (hkept : isPass j = true → ∀ k, e k ≠ .forget id)
    (hpass : pass? j.work = some (instrument, interval, .fetching fetch)) :
    Completes V S s e id i instrument interval fetch := by
  obtain ⟨k, hik, hlast, hk⟩ := goes_finally hend hsound hjust hj
    (busy_of_pass hpass (by simp)) hkept fun hlast => by
      obtain ⟨k, hk⟩ := hanswered i j instrument interval fetch hpass hlast
      refine ⟨max i k, fun m hm => ?_⟩
      exact ready_of_pass (hlast m (by omega)) hpass (.inl ⟨fetch, rfl, hk m (by omega)⟩)
  obtain ⟨calls, around, j', stage', hg, hj', hpass', hsame, -⟩ :=
    goes_of_pass (hsound k) (hk ▸ hend.goes k) (hlast k hik (Nat.le_refl k)) hpass (by simp)
  cases hg with
  | fails hf => exact .fails hik hk hf hj' hpass'
  | @fetches _ rows _ hf =>
    obtain ⟨m, hkm, hlast', hm⟩ := goes_finally hend hsound hjust hj'
      (busy_of_pass hpass' (by simp)) (hsame ▸ hkept) fun hlast =>
        ⟨k + 1, fun m hm => ready_of_pass (hlast m hm) hpass' (.inr ⟨_, rfl⟩)⟩
    obtain ⟨calls, around, j'', stage'', hg, hj'', hpass'', -, hcalls⟩ :=
      goes_of_pass (hsound m) (hm ▸ hend.goes m) (hlast' m hkm (Nat.le_refl m)) hpass' (by simp)
    have hbetween (l : Nat) (hkl : k < l) (hlm : l ≤ m) : ∃ j, (s l).world.job? id = some j ∧
        pass? j.work = some (instrument, interval, .storing (V.bars instrument interval rows)) :=
      ⟨j', hlast' l hkl hlm, hpass'⟩
    have hstored {result : Except Failure Nat} (hover : stage'' = .finished result)
        (hcalls' : Stored (V.bars instrument interval rows) calls result) :
        Completes V S s e id i instrument interval fetch := by
      subst hover
      refine .stores hik hk hf hkm hm hbetween ?_ hj'' hpass''
      rw [hm, hcalls]
      exact hcalls'
    generalize V.bars instrument interval rows = bars at hg hstored
    cases hg with
    | skips => exact hstored rfl (.nothing rfl)
    | stores hne _ => exact hstored rfl (.once hne)

/-- A batch under way keeps its stream, no other batch is made meanwhile, and the loop is nearer to
receiving again. -/
theorem LoopGoes.batch {instrument : ι} {stage : StreamStage} {around : σ}
    (h : LoopGoes V S now w instrument stage calls around work')
    (hbusy : isBusy (.stream instrument stage) = true) :
    ∃ stage' stream, work' = .stream instrument stage' ∧
      stream? (.stream instrument stage) = some stream ∧ stream? work' = some stream ∧
      (isBusy work' = true ∨ stage' = .receiving stream) ∧
      stepsToReceive work' < stepsToReceive (.stream instrument stage) ∧
      made V calls (.stream instrument stage) = none := by
  cases h with
  | @stores stream _ _ again =>
    refine ⟨_, stream, rfl, rfl, rfl, .inl rfl, ?_, rfl⟩
    cases again <;> simp [stepsToReceive]
  | retries => exact ⟨_, _, rfl, rfl, rfl, .inl rfl, by simp [stepsToReceive], rfl⟩
  | forwards => exact ⟨_, _, rfl, rfl, rfl, .inl rfl, by simp [stepsToReceive], rfl⟩
  | loses | keeps | resumes =>
    exact ⟨_, _, rfl, rfl, rfl, .inr rfl, by simp [stepsToReceive], rfl⟩
  | _ => cases hbusy

/-- A batch under way can go on, if the downstream answers. -/
theorem ready_of_batch (hanswered : Answered V S s id) {i : Nat} {j : Job ι} {instrument : ι}
    {stage : StreamStage} (hw : j.work = .stream instrument stage) (hbusy : isBusy j.work = true)
    (hlast : ∀ k, i ≤ k → (s k).world.job? id = some j) :
    ∃ k, ∀ m, k ≤ m → happens V S (.move (.goOn id)) (s m) ≠ none := by
  rw [hw] at hbusy
  cases stage with
  | storing | forwarding =>
    exact ⟨i, fun m hm => (ready_of_ingesting (hlast m hm) (by rw [hw]; rfl)).1⟩
  | publishing stream publication =>
    exact hanswered i j instrument stream publication hw hlast
  | _ => cases hbusy

/-- While a batch is under way no other is made. -/
theorem batches_of_busy (hend : Endless (happens V S) s e) (hsound : ∀ k, Sound (s k).world)
    {i k : Nat} (hik : i ≤ k)
    (hbusy : ∀ l, i ≤ l → l < k → ∃ j, (s l).world.job? id = some j ∧ isBusy j.work = true) :
    batches V id (incidents s e k) = batches V id (incidents s e i) := by
  induction k, hik using Nat.le_induction with
  | base => rfl
  | succ k hik ih =>
    have hnone : batchAt? V id ⟨s k, e k, s (k + 1)⟩ = none := by
      by_cases hgo : e k = .move (.goOn id)
      · obtain ⟨j, calls, around, work, hj, hg, ht, -⟩ :=
          goes_of_goOn (hsound k) (hgo ▸ hend.goes k)
        obtain ⟨j', hj', hb⟩ := hbusy k hik (Nat.lt_succ_self k)
        cases hj.symm.trans hj'
        rw [hgo, (seen_of_goes V (s (k + 1)) hj (by rw [ht]; rfl)).1]
        cases hw : j.work with
        | stream instrument stage =>
          rw [hw] at hg hb
          cases hg with
          | stream hg =>
            obtain ⟨-, -, -, -, -, -, -, hmade⟩ := hg.batch hb
            exact hmade
        | _ => rfl
      · exact batchAt?_of_ne hgo
    rw [incidents_succ, batches_concat, hnone, ih fun l hil hlk => hbusy l hil (by omega)]
    exact List.append_nil _

/-- A batch that is under way is stored and sent on, and the loop goes back to its stream when the
downstream has answered, whether the collector was stopped or not. -/
theorem batch_finally (hend : Endless (happens V S) s e) (hsound : ∀ k, Sound (s k).world)
    (hjust : Just (happens V S) s e (.move (.goOn id))) (hanswered : Answered V S s id)
    {i : Nat} {j : Job ι} {instrument : ι} {stage : StreamStage}
    (hj : (s i).world.job? id = some j) (hw : j.work = .stream instrument stage)
    (hbusy : isBusy j.work = true) :
    ∃ k stream j', i < k ∧ stream? j.work = some stream ∧
      (∀ l, i ≤ l → l < k → ∃ j, (s l).world.job? id = some j ∧ isBusy j.work = true) ∧
      (s k).world.job? id = some j' ∧ j'.work = .stream instrument (.receiving stream) := by
  -- the loop stays as it is until it goes on, and each time it goes on fewer steps are left
  induction hn : stepsToReceive j.work using Nat.strongRecOn generalizing i j stage with
  | _ n ih =>
    obtain ⟨k, hik, hlast, hk⟩ := goes_finally hend hsound hjust hj hbusy
      (fun hpass => by simp [isPass, hw] at hpass) (ready_of_batch hanswered hw hbusy)
    obtain ⟨j₁, calls, around, work, hj₁, hg, -, hj'⟩ :=
      goes_of_goOn (hsound k) (hk ▸ hend.goes k)
    cases hj₁.symm.trans (hlast k hik (Nat.le_refl k))
    have hwhile (l : Nat) (hil : i ≤ l) (hlk : l ≤ k) :
        ∃ j, (s l).world.job? id = some j ∧ isBusy j.work = true := ⟨j, hlast l hil hlk, hbusy⟩
    rw [hw] at hg hbusy hn ⊢
    cases hg with
    | stream hg =>
      obtain ⟨stage', stream, rfl, hstream, hstream', hbusy' | rfl, hless, -⟩ := hg.batch hbusy
      · obtain ⟨m, stream₂, j₂, hkm, hsame, hwhile', hj₂, hw₂⟩ :=
          ih _ (hn ▸ hless) hj' rfl hbusy' rfl
        cases hstream'.symm.trans hsame
        refine ⟨m, stream, j₂, by omega, hstream, fun l hil hlm => ?_, hj₂, hw₂⟩
        rcases Nat.lt_or_ge k l with hkl | hlk
        · exact hwhile' l hkl hlm
        · exact hwhile l hil hlk
      · exact ⟨k + 1, stream, _, by omega, hstream,
          fun l hil hlk => hwhile l hil (Nat.le_of_lt_succ hlk), hj', rfl⟩

end

end

/-- A collector that is stopped begins nothing new and completes what is under way, whatever happens
to it and whenever it is stopped:

* from then on a fetch is started by a pass that is requested only, and no stream is opened;
* the streams that a loop opened are those that it dropped, and the one that it has; so one that has
  ended dropped them all, and none but the loops open and drop streams;
* a pass that is fetching is completed: its bars are stored, unless the fetch fails; a requested one
  may be given up instead;
* a batch that is under way is completed: it is stored, once more if that failed, and sent on, and
  the loop does not look for the stop before the downstream has answered.

A fetch and a publication are under way from the step that asks for them to the one that takes the
answer. Openings and writes are answered in their step, so a stop meanwhile is one right after. -/
theorem stopped_begins_nothing {σ ι ρ τ : Type} (V : Venue ι ρ τ) (S : Surroundings σ ι ρ τ)
    (config : Config ι) (a : σ) (start : Nat) :
    (∀ h₁ t₁ t₂ h₂ t, History (happens V S) ⟨start, .new config (a, [])⟩ h₁ t₁ →
      happens V S .stop t₁ = some t₂ → History (happens V S) t₂ h₂ t →
      t.world.stopped = true ∧ ∀ x ∈ h₂, ∀ c ∈ callsAt x, c.begins = true →
        ∃ instrument request, x.event = .startPass instrument request ∧
          c = .fetch instrument request) ∧
    (∀ h t, History (happens V S) ⟨start, .new config (a, [])⟩ h t →
      (∀ id, opened id h = dropped id h ++ (held id t).toList ∧
        ((t.world.job? id).map Job.work = some .ended → opened id h = dropped id h)) ∧
      ∀ x ∈ h, callsAt x = [] ∨ (∃ id, callsAt x = callsBy id x) ∨
        ∃ instrument request, x.event = .startPass instrument request ∧
          callsAt x = [.fetch instrument request]) ∧
    ∀ s e id, s 0 = ⟨start, .new config (a, [])⟩ → Endless (happens V S) s e →
      Just (happens V S) s e (.move (.goOn id)) →
      (FetchAnswered S s id → ∀ i j instrument interval fetch, (s i).world.job? id = some j →
        (isPass j = true → ∀ k, e k ≠ .forget id) →
        pass? j.work = some (instrument, interval, .fetching fetch) →
        Completes V S s e id i instrument interval fetch) ∧
      (Answered V S s id → ∀ i j instrument stage, (s i).world.job? id = some j →
        j.work = .stream instrument stage → isBusy j.work = true →
        ∃ k stream j', i < k ∧ stream? j.work = some stream ∧
          (∀ l, i ≤ l → l < k → ∃ j, (s l).world.job? id = some j ∧ isBusy j.work = true ∧
            e l ≠ .move (.halt id)) ∧
          (s k).world.job? id = some j' ∧ j'.work = .stream instrument (.receiving stream) ∧
          batches V id (incidents s e k) = batches V id (incidents s e i) ∧
          IngestedAll S.downstream.isSome (batches V id (incidents s e k))
            (ingests id (incidents s e k))) := by
  refine ⟨?_, ?_, ?_⟩
  · intro h₁ t₁ t₂ h₂ t hist hstop hist'
    have hsound := (sound_of_history hist).next hstop
    cases hstop
    exact (stopped_of_history hsound hist' rfl).2
  · intro h t hist
    refine ⟨fun id => ?_, ?_⟩
    · have hstreams := streams_of_history hist id
      refine ⟨hstreams, fun hended => ?_⟩
      obtain ⟨j, hj, hw⟩ := Option.map_eq_some_iff.1 hended
      rw [hstreams, held_of_job hj, hw]
      exact List.append_nil _
    · induction hist with
      | nil => exact fun x hx => absurd hx List.not_mem_nil
      | snoc hist he ih =>
        intro x hx
        rcases List.mem_append.1 hx with hx | hx
        · exact ih x hx
        · obtain rfl := List.mem_singleton.1 hx
          exact calls_of_happens (sound_of_history hist) he
  · intro s e id hstart hend hjust
    have hhist (k : Nat) :
        History (happens V S) ⟨start, .new config (a, [])⟩ (incidents s e k) (s k) :=
      hstart ▸ hend.history k
    have hsound (k : Nat) := sound_of_history (hhist k)
    refine ⟨fun hanswered i j instrument interval fetch hj hkept hpass =>
      pass_finally hend hsound hjust hanswered hj hkept hpass, ?_⟩
    intro hanswered i j instrument stage hj hw hbusy
    obtain ⟨k, stream, j', hik, hstream, hwhile, hj', hw'⟩ :=
      batch_finally hend hsound hjust hanswered hj hw hbusy
    have hall := (standing_of_history (hhist k) id).all
      (by rw [hj', Option.map_some, hw']; exact rests_some rfl)
    refine ⟨k, stream, j', hik, hstream, fun l hil hlk => ?_, hj', hw',
      batches_of_busy hend hsound (Nat.le_of_lt hik) hwhile, hall⟩
    obtain ⟨j, hjl, hbusyl⟩ := hwhile l hil hlk
    refine ⟨j, hjl, hbusyl, fun hhalt => ?_⟩
    obtain ⟨-, j₁, calls, around, hj₁, hh, -⟩ := halts_of_halt (hsound l) (hhalt ▸ hend.goes l)
    cases hjl.symm.trans hj₁
    exact absurd hbusyl (by simp [hh.not_busy])

theorem ended_of_isEnded {σ ι ρ τ : Type} (V : Venue ι ρ τ) (S : Surroundings σ ι ρ τ)
    {t : Timed (Watched σ ι τ)} {id : Nat} (h : (t.world.job? id).any isEnded = true) :
    ∃ j, t.world.job? id = some j ∧ j.work = .ended ∧
      happens V S (.move (.goOn id)) t = none := by
  obtain ⟨j, hj, hended⟩ := (Option.any_eq_true _ _).1 h
  unfold isEnded at hended
  split at hended
  · rename_i hw
    exact ⟨j, hj, hw, by simp [happens, step, hj, goOn, hw]⟩
  · cases hended

/-- A schedule after which nothing happens but the passing of time. A job that cannot go on at the
end of it is treated justly. -/
theorem rests_after {σ ι ρ τ : Type} {V : Venue ι ρ τ} {S : Surroundings σ ι ρ τ}
    {es : List (Event σ ι)} {t₀ t : Timed (Watched σ ι τ)}
    {h : List (Incident (Timed (Watched σ ι τ)) (Event σ ι))}
    (hr : History.replay (happens V S) es t₀ = some (h, t)) :
    ∃ s e, Endless (happens V S) s e ∧ s 0 = t₀ ∧ incidents s e es.length = h ∧
      (∀ i, s (i + es.length) = t) ∧ ∀ event, happens V S event t = none →
        Just (happens V S) s e event := by
  have hrest : Endless (happens V S) (fun _ => t) (fun _ => .wait t.now) :=
    ⟨fun _ => if_pos (Nat.le_refl t.now)⟩
  obtain ⟨s, e, hend, hstart, hinc, hlate, -⟩ := hrest.of_replay hr rfl
  refine ⟨s, e, hend, hstart, hinc, fun i => (hlate i).1, fun event hnone i => ?_⟩
  refine ⟨i + es.length, Nat.le_add_right _ _, .inr ?_⟩
  rw [(hlate i).1]
  exact hnone

end World

/-! ## A stop in the middle of a pass and of a batch -/

namespace Sample

def kline : Binance.Kline :=
  ⟨60000, price, nextPrice, price, nextPrice, price, 119999, price, 3, price, price⟩

def both : Config String :=
  { (Config.default : Config String) with
    backfill := [("BTCUSDT", .minute 1)], live := ["BTCUSDT"], tickBatchSize := 1 }

/-- A fetch that takes a while, and a stream with one trade. -/
def oneEach : Script Binance.Kline Binance.Trade :=
  .new ⟨[("BTCUSDT", [⟨5, .ok [kline]⟩])]⟩ ⟨[("BTCUSDT", [.trades [trade 7 price] false])]⟩ .none
    .none (some .none)

def newBoth : Timed (World.Watched (Script Binance.Kline Binance.Trade) String Binance.Trade) :=
  ⟨0, .new both (oneEach, [])⟩

/-- One loop is fetching, the other has taken the trade. -/
def untilStop : List (World.Event (Script Binance.Kline Binance.Trade) String) :=
  .start :: .move (.goOn 1) :: List.replicate 2 (.move (.goOn 2))

/-- Both loops go on as long as they can, and then they end. -/
def fromStop : List (World.Event (Script Binance.Kline Binance.Trade) String) :=
  .wait 5 :: List.replicate 3 (.move (.goOn 1)) ++ .move (.halt 1) ::
    List.replicate 3 (.move (.goOn 2)) ++ [.move (.halt 2)]

/-- What is seen of a stop: whether a pass and a batch were under way, the fetch of the pass, the
calls from then on, the streams of the streaming loop, and whether both loops have ended. -/
structure Stopped where
  fetch : Option Nat
  ingesting : Bool
  calls : List (List Decimal × Option Bool)
  opened : List Nat
  ended : Bool
  deriving DecidableEq

/-- The fetch that a polling loop waits for. -/
def fetch? : Work String → Option Nat
  | .poll _ _ (.passing (.fetching fetch)) => some fetch
  | _ => none

def stoppedIn (n : Nat)
    (h : List (Incident
      (Timed (World.Watched (Script Binance.Kline Binance.Trade) String Binance.Trade))
      (World.Event (Script Binance.Kline Binance.Trade) String)))
    (t : Timed (World.Watched (Script Binance.Kline Binance.Trade) String Binance.Trade)) :
    Stopped :=
  let before := h[n]?.map Incident.before
  { fetch := (before.bind fun t => t.world.job? 1).bind fun j => fetch? j.work
    ingesting := (before.bind fun t => t.world.job? 2).any fun j => j.work.isIngesting
    calls := ((h.drop n).flatMap World.callsAt).map told
    opened := World.opened 2 h
    ended := (t.world.job? 1).any World.isEnded && (t.world.job? 2).any World.isEnded }

theorem replay_stopped :
    (History.replay (World.happens binance surroundings) (untilStop ++ .stop :: fromStop)
      newBoth).map (fun r => stoppedIn 4 r.1 r.2) =
      some ⟨some 0, true, [([], none), ([price], some true), ([price], none), ([], none)], [1],
        true⟩ := by
  decide +kernel

end Sample

/-- A pass and a batch are under way when the collector is stopped. Both are completed, nothing else
begins, and the stream is dropped. -/
theorem stopped_begins_nothing_under_way : ∃ s e, Endless
      (World.happens binance Sample.surroundings) s e ∧ s 0 = Sample.newBoth ∧ e 4 = .stop ∧
      Sample.stoppedIn 4 (incidents s e 14) (s 14) = ⟨some 0, true,
        [([], none), ([Sample.price], some true), ([Sample.price], none), ([], none)], [1], true⟩ ∧
      (∀ x ∈ incidents (fun i => s (i + 5)) (fun i => e (i + 5)) 9, ∀ c ∈ World.callsAt x,
        c.begins = true → ∃ instrument request, x.event = .startPass instrument request ∧
          c = .fetch instrument request) ∧
      World.dropped 2 (incidents s e 14) = [1] ∧
      (∃ instrument interval,
        World.Completes binance Sample.surroundings s e 1 4 instrument interval 0) ∧
      ∃ k, 4 < k ∧ World.batches binance 2 (incidents s e k) =
          World.batches binance 2 (incidents s e 4) ∧
        World.IngestedAll true (World.batches binance 2 (incidents s e k))
          (World.ingests 2 (incidents s e k)) := by
  obtain ⟨hbegins, hstreams, hcompletes⟩ :=
    World.stopped_begins_nothing binance Sample.surroundings Sample.both Sample.oneEach 0
  obtain ⟨⟨h, t⟩, hr, hseen⟩ := Option.map_eq_some_iff.1 Sample.replay_stopped
  obtain ⟨s, e, hend, hstart, hinc, hlate, hjust⟩ := World.rests_after hr
  have hlen : (Sample.untilStop ++ .stop :: Sample.fromStop).length = 14 := rfl
  rw [hlen] at hinc hlate
  have ht : s 14 = t := hlate 0
  subst hinc ht
  have hstop : e 4 = .stop := by
    have hevents := congrArg (·[4]?) (History.replay_events hr)
    exact Option.some.inj hevents
  have hhist := hend.history 14
  have hlater : Endless (World.happens binance Sample.surroundings) (fun i => s (i + 5))
      (fun i => e (i + 5)) := ⟨fun i => hend.goes (i + 5)⟩
  have hfields := hseen
  simp only [Sample.stoppedIn, Sample.Stopped.mk.injEq] at hfields
  obtain ⟨hfetch, hingesting, -, hopened, hended⟩ := hfields
  rw [Bool.and_eq_true] at hended
  obtain ⟨j₁, hj₁, hw₁, hnone₁⟩ := World.ended_of_isEnded binance Sample.surroundings hended.1
  obtain ⟨j₂, hj₂, hw₂, hnone₂⟩ := World.ended_of_isEnded binance Sample.surroundings hended.2
  -- no loop waits forever, since both end
  have hwaits {id i : Nat} {j j' : Job String} (hj : (s 14).world.job? id = some j)
      (hw : j.work = .ended) (hlast : ∀ k, i ≤ k → (s k).world.job? id = some j') :
      j'.work = .ended := by
    have hlast' := hlast (i + 14) (Nat.le_add_right i 14)
    rw [hlate i, hj] at hlast'
    cases hlast'
    exact hw
  have hfour : (incidents s e 14)[4]? = some ⟨s 4, e 4, s 5⟩ := rfl
  simp only [hfour, Option.map_some, Option.bind_some] at hfetch hingesting
  refine ⟨s, e, hend, hstart, hstop, hseen, ?_, ?_, ?_, ?_⟩
  · have hgoes : World.happens binance Sample.surroundings .stop (s 4) = some (s 5) :=
      hstop ▸ hend.goes 4
    exact (hbegins _ _ _ _ _ (hstart ▸ hend.history 4) hgoes (hlater.history 9)).2
  · have hdropped := ((hstreams _ _ (hstart ▸ hhist)).1 2).2
      (by rw [hj₂, Option.map_some, hw₂])
    rw [← hdropped, hopened]
  · obtain ⟨j, hj, hfetch⟩ := Option.bind_eq_some_iff.1 hfetch
    unfold Sample.fetch? at hfetch
    split at hfetch
    · rename_i instrument interval fetch hw
      cases hfetch
      refine ⟨instrument, interval, (hcompletes s e 1 hstart hend (hjust _ hnone₁)).1 ?_ 4 j
        instrument interval 0 hj (by simp [World.isPass, hw]) (by rw [hw]; rfl)⟩
      intro i j instrument interval fetch hpass hlast
      rw [hwaits hj₁ hw₁ hlast] at hpass
      cases hpass
    · cases hfetch
  · obtain ⟨j, hj, hbusy⟩ := (Option.any_eq_true _ _).1 hingesting
    have hanswered : World.Answered binance Sample.surroundings s 2 := by
      intro i j instrument stream publication hw hlast
      rw [hwaits hj₂ hw₂ hlast] at hw
      cases hw
    have hbatch := (hcompletes s e 2 hstart hend (hjust _ hnone₂)).2 hanswered 4 j
    unfold Work.isIngesting at hbusy
    split at hbusy
    · rename_i hw
      obtain ⟨k, -, -, hk, -, -, -, -, hsame, hall⟩ := hbatch _ _ hj hw (by rw [hw]; rfl)
      exact ⟨k, hk, hsame, hall⟩
    · rename_i hw
      obtain ⟨k, -, -, hk, -, -, -, -, hsame, hall⟩ := hbatch _ _ hj hw (by rw [hw]; rfl)
      exact ⟨k, hk, hsame, hall⟩
    · cases hbusy

end Collector
end MarketFeed
