import MarketFeed.Proofs.Collector.Events

/-!
# MarketFeed.Proofs.Collector.Ingest

What becomes of the batches of a streaming loop.

* `batches`, `ingests` — the ticks that a loop makes of the trades it takes, and the calls by which
  it passes ticks on.
* `Ingested` — the calls that one batch causes; `IngestedAll`, `Ingesting` — those of several, one
  batch after another, and of the last one perhaps not all yet.
* `Standing`, `standing_of_history` — where a loop stands in the calls of its last batch.
* `ingests_finally` — a loop that is treated justly makes all calls of every batch.
-/

namespace MarketFeed
namespace Collector

/-- A batch is under way. -/
def Work.isIngesting {ι : Type} : Work ι → Bool
  | .stream _ (.storing _ _ _) => true
  | .stream _ (.forwarding _ _) => true
  | _ => false

namespace World

section

variable {σ ι ρ τ : Type}

/-! ## What is seen of a loop -/

/-- The calls by which a job passes ticks on in an incident. -/
def ingestsAt (id : Nat) (x : Incident (Timed (Watched σ ι τ)) (Event σ ι)) : List (Call ι τ) :=
  match x.event with
  | .move (.goOn i) => if i = id then (callsAt x).filter Call.passesTicks else []
  | _ => []

/-- The ticks that a streaming loop makes of the trades it took by some calls; none if it took no
trade. -/
def made (V : Venue ι ρ τ) (calls : List (Call ι τ)) : Work ι → Option (List Tick)
  | .stream instrument _ =>
    match calls.filterMap Call.trade? with
    | [] => none
    | first :: rest => some (V.ticks instrument (first :: rest))
  | _ => none

/-- The batch that a streaming loop makes in an incident, which may be empty. -/
def batchAt? (V : Venue ι ρ τ) (id : Nat) (x : Incident (Timed (Watched σ ι τ)) (Event σ ι)) :
    Option (List Tick) :=
  match x.event with
  | .move (.goOn i) =>
    if i = id then (x.before.world.job? id).bind fun j => made V (callsAt x) j.work else none
  | _ => none

def ingests (id : Nat) (h : List (Incident (Timed (Watched σ ι τ)) (Event σ ι))) :
    List (Call ι τ) :=
  h.flatMap (ingestsAt id)

def batches (V : Venue ι ρ τ) (id : Nat)
    (h : List (Incident (Timed (Watched σ ι τ)) (Event σ ι))) : List (List Tick) :=
  h.filterMap (batchAt? V id)

end

/-! ## Batches and their calls -/

section

variable {ι τ : Type} {sends : Bool} {batch : List Tick} {batches : List (List Tick)}
  {calls calls' : List (Call ι τ)} {work : Option (Work ι)}

/-- A batch is sent on if there is somewhere to. -/
def sent (sends : Bool) (batch : List Tick) : List (Call ι τ) :=
  if sends then [.publish batch] else []

/-- The calls that a batch causes: it is written, once more if that failed, and sent on once it was
written. -/
inductive Ingested (sends : Bool) (batch : List Tick) : List (Call ι τ) → Prop where
  | empty (h : batch = []) : Ingested sends batch []
  | stored (h : batch ≠ []) : Ingested sends batch ([.storeTicks batch true] ++ sent sends batch)
  | retried (h : batch ≠ []) :
      Ingested sends batch ([.storeTicks batch false, .storeTicks batch true] ++ sent sends batch)
  | lost (h : batch ≠ []) :
      Ingested sends batch [.storeTicks batch false, .storeTicks batch false]

/-- The calls of some batches, one batch after another. -/
inductive IngestedAll (sends : Bool) : List (List Tick) → List (Call ι τ) → Prop where
  | nil : IngestedAll sends [] []
  | snoc {batches : List (List Tick)} {batch : List Tick} {calls calls' : List (Call ι τ)}
      (h : IngestedAll sends batches calls) (hb : Ingested sends batch calls') :
      IngestedAll sends (batches ++ [batch]) (calls ++ calls')

/-- The calls of some batches, of the last one perhaps not all. -/
inductive Ingesting (sends : Bool) : List (List Tick) → List (Call ι τ) → Prop where
  | done {batches : List (List Tick)} {calls : List (Call ι τ)}
      (h : IngestedAll sends batches calls) : Ingesting sends batches calls
  | within {batches : List (List Tick)} {batch : List Tick} {calls calls' : List (Call ι τ)}
      (more : List (Call ι τ)) (h : IngestedAll sends batches calls)
      (hb : Ingested sends batch (calls' ++ more)) :
      Ingesting sends (batches ++ [batch]) (calls ++ calls')

/-- The calls that wrote a batch. -/
inductive Written (batch : List Tick) : List (Call ι τ) → Prop where
  | once : Written batch [.storeTicks batch true]
  | twice : Written batch [.storeTicks batch false, .storeTicks batch true]

theorem Written.ingested (h : Written batch calls) (hne : batch ≠ []) :
    Ingested sends batch (calls ++ sent sends batch) := by
  cases h with
  | once => exact .stored hne
  | twice => exact .retried hne

/-- No batch is under way. -/
def Rests (work : Option (Work ι)) : Prop := ∀ w, work = some w → w.isIngesting = false

theorem rests_some {work : Work ι} (h : work.isIngesting = false) : Rests (some work) := by
  rintro _ ⟨⟩
  exact h

theorem rests_none : Rests (none : Option (Work ι)) := by
  rintro _ ⟨⟩

/-- Where a loop stands by the batches that it made and the calls by which it passed ticks on. -/
inductive Standing (sends : Bool) :
    Option (Work ι) → List (List Tick) → List (Call ι τ) → Prop where
  | resting {work : Option (Work ι)} {batches : List (List Tick)} {calls : List (Call ι τ)}
      (hrests : Rests work)
      (h : IngestedAll sends batches calls) : Standing sends work batches calls
  | storing {instrument : ι} {stream : Nat} {batch : List Tick} {batches : List (List Tick)}
      {calls : List (Call ι τ)} (h : IngestedAll sends batches calls) (hne : batch ≠ []) :
      Standing sends (some (.stream instrument (.storing stream batch false)))
        (batches ++ [batch]) calls
  | again {instrument : ι} {stream : Nat} {batch : List Tick} {batches : List (List Tick)}
      {calls : List (Call ι τ)} (h : IngestedAll sends batches calls) (hne : batch ≠ []) :
      Standing sends (some (.stream instrument (.storing stream batch true)))
        (batches ++ [batch]) (calls ++ [.storeTicks batch false])
  | forwarding {instrument : ι} {stream : Nat} {batch : List Tick} {batches : List (List Tick)}
      {calls calls' : List (Call ι τ)} (h : IngestedAll sends batches calls) (hne : batch ≠ [])
      (hw : Written batch calls') :
      Standing sends (some (.stream instrument (.forwarding stream batch)))
        (batches ++ [batch]) (calls ++ calls')

namespace Standing

theorem ingesting (h : Standing sends work batches calls) : Ingesting sends batches calls := by
  cases h with
  | resting hrests h => exact .done h
  | storing h hne =>
    rw [← List.append_nil calls]
    exact .within _ h (.stored hne)
  | again h hne => exact .within _ h (.lost hne)
  | forwarding h hne hw => exact .within _ h (hw.ingested hne)

/-- Between two batches all calls were made. -/
theorem all (h : Standing sends work batches calls)
    (hrests : Rests work) : IngestedAll sends batches calls := by
  cases h with
  | resting _ h => exact h
  | _ => exact absurd (hrests _ rfl) (by simp [Work.isIngesting])

end Standing
end

/-! ## Step by step -/

section

variable {σ ι ρ τ : Type} {V : Venue ι ρ τ} {S : Surroundings σ ι ρ τ} {id : Nat}
  {t t' : Timed (Watched σ ι τ)} {e : Event σ ι} {work work' : Work ι} {calls : List (Call ι τ)}
  {s : σ} {now : Nat} {w : Watched σ ι τ} {bs : List (List Tick)} {cs : List (Call ι τ)}

theorem trades_of_receives (stream : Nat) (trades : List τ) :
    (trades.map (Call.receive (ι := ι) stream)).filterMap Call.trade? = trades := by
  rw [List.filterMap_map]
  exact List.filterMap_some

theorem passesTicks_receives (stream : Nat) (trades : List τ) :
    (trades.map (Call.receive (ι := ι) stream)).filter Call.passesTicks = [] := by
  rw [List.filter_eq_nil_iff]
  intro c hc
  obtain ⟨trade, -, rfl⟩ := List.mem_map.1 hc
  exact Bool.false_ne_true

theorem made_of_no_trade (h : calls.filterMap Call.trade? = []) : made V calls work = none := by
  unfold made
  split
  · rw [h]
  · rfl

/-- What neither takes trades nor passes ticks on leaves a loop where it is. -/
theorem Standing.rest {sends : Bool} {work work' : Option (Work ι)} (h : Standing sends work bs cs)
    (hrests : Rests work) (hrests' : Rests work') : Standing sends work' bs cs :=
  .resting hrests' (h.all hrests)

/-- A loop that goes on stands where the batch that it makes and the calls that it makes put it. -/
theorem Standing.goes {instrument : ι} {stage : StreamStage}
    (h : Standing S.downstream.isSome (some (.stream instrument stage)) bs cs)
    (hg : LoopGoes V S now w instrument stage calls s work) :
    Standing S.downstream.isSome (some work)
      (bs ++ (made V calls (.stream instrument stage)).toList)
      (cs ++ calls.filter Call.passesTicks) := by
  -- a batch under way is known by its stage; in the other stages all calls were made
  cases hg with
  | stops _ | opens _ _ | fails _ _ | ends _ | resumes _ | restarts _ =>
    rw [made_of_no_trade rfl, show List.filter Call.passesTicks _ = [] from rfl, Option.toList_none,
      List.append_nil, List.append_nil]
    exact h.rest (rests_some rfl) (rests_some rfl)
  | @passesOver stream first rest _ _ _ _ hnone =>
    rw [made, trades_of_receives, passesTicks_receives]
    exact .resting (rests_some rfl) ((h.all (rests_some rfl)).snoc (.empty hnone))
  | @takes stream first rest _ _ _ _ hsome =>
    rw [made, trades_of_receives, passesTicks_receives, List.append_nil]
    exact .storing (h.all (rests_some rfl)) hsome
  | stores _ =>
    rw [made_of_no_trade rfl, Option.toList_none, List.append_nil]
    cases h with
    | resting hrests _ => cases hrests _ rfl
    | storing h hne => exact .forwarding h hne .once
    | again h hne =>
      rw [List.append_assoc]
      exact .forwarding h hne .twice
  | retries _ =>
    rw [made_of_no_trade rfl, Option.toList_none, List.append_nil]
    cases h with
    | resting hrests _ => cases hrests _ rfl
    | storing h hne => exact .again h hne
  | loses _ =>
    rw [made_of_no_trade rfl, Option.toList_none, List.append_nil]
    cases h with
    | resting hrests _ => cases hrests _ rfl
    | again h hne =>
      rw [List.append_assoc]
      exact .resting (rests_some rfl) (h.snoc (.lost hne))
  | keeps hd =>
    rw [made_of_no_trade rfl, Option.toList_none, List.append_nil, hd]
    cases h with
    | resting hrests _ => cases hrests _ rfl
    | forwarding h hne hw =>
      rw [List.append_assoc]
      exact .resting (rests_some rfl) ((hd ▸ h).snoc (hw.ingested hne))
  | forwards hd _ =>
    rw [made_of_no_trade rfl, Option.toList_none, List.append_nil, hd]
    cases h with
    | resting hrests _ => cases hrests _ rfl
    | forwarding h hne hw =>
      rw [List.append_assoc]
      exact .resting (rests_some rfl) ((hd ▸ h).snoc (hw.ingested hne))

theorem ingestsAt_of_ne {x : Incident (Timed (Watched σ ι τ)) (Event σ ι)}
    (he : x.event ≠ .move (.goOn id)) : ingestsAt id x = [] := by
  unfold ingestsAt
  split
  · rename_i i hi
    refine if_neg ?_
    rintro rfl
    exact he hi
  · rfl

theorem batchAt?_of_ne {x : Incident (Timed (Watched σ ι τ)) (Event σ ι)}
    (he : x.event ≠ .move (.goOn id)) : batchAt? V id x = none := by
  unfold batchAt?
  split
  · rename_i i hi
    refine if_neg ?_
    rintro rfl
    exact he hi
  · rfl

theorem seen_of_goes (V : Venue ι ρ τ) (t' : Timed (Watched σ ι τ)) {j : Job ι}
    (hj : t.world.job? id = some j)
    (hlog : t'.world.around.2 = t.world.around.2 ++ calls) :
    batchAt? V id ⟨t, .move (.goOn id), t'⟩ = made V calls j.work ∧
      ingestsAt id ⟨t, .move (.goOn id), t'⟩ = calls.filter Call.passesTicks := by
  have hcalls : callsAt (⟨t, .move (.goOn id), t'⟩ : Incident _ (Event σ ι)) = calls :=
    callsAt_of_log hlog
  simp only [batchAt?, ingestsAt, if_true, hcalls, hj, Option.bind_some, and_self]

theorem Fresh.rests (h : Fresh work) : Rests (some work) := by
  cases h <;> exact rests_some rfl

theorem Halts.rests {s s' : σ} (h : Halts S s work calls s') : Rests (some work) := by
  cases h <;> exact rests_some rfl

/-- A pass, or a loop that polls, has nothing to do with batches. -/
theorem WorkGoes.quiet (h : WorkGoes V S now w work calls s work')
    (hno : ∀ instrument stage, work ≠ .stream instrument stage) :
    made V calls work = none ∧ calls.filter Call.passesTicks = [] ∧ Rests (some work) ∧
      Rests (some work') := by
  have hfilter : calls.filter Call.passesTicks = [] := by
    rw [List.filter_eq_nil_iff]
    intro c hc hp
    obtain ⟨instrument, stage, hw⟩ := h.passesTicks ⟨c, hc, hp⟩
    exact hno instrument stage hw
  cases h with
  | pass h => exact ⟨rfl, hfilter, rests_some rfl, rests_some rfl⟩
  | poll h => exact ⟨rfl, hfilter, rests_some rfl, rests_some (by cases h <;> rfl)⟩
  | stream h => exact absurd rfl (hno _ _)

theorem rests_of_over {j : Job ι} (h : j.work = .ended ∨ isPass j = true) :
    Rests (some j.work) := by
  rcases h with hw | hpass
  · rw [hw]
    exact rests_some rfl
  · rw [isPass] at hpass
    split at hpass
    · rename_i hw
      rw [hw]
      exact rests_some rfl
    · cases hpass

/-- Whatever happens, a loop stands where its batches and calls put it. -/
theorem Standing.next (h : Standing S.downstream.isSome ((t.world.job? id).map Job.work) bs cs)
    (hsound : Sound t.world) (he : happens V S e t = some t') :
    Standing S.downstream.isSome ((t'.world.job? id).map Job.work)
      (bs ++ (batchAt? V id ⟨t, e, t'⟩).toList) (cs ++ ingestsAt id ⟨t, e, t'⟩) := by
  have hquiet (hne : e ≠ .move (.goOn id))
      (hst : Standing S.downstream.isSome ((t'.world.job? id).map Job.work) bs cs) :
      Standing S.downstream.isSome ((t'.world.job? id).map Job.work)
        (bs ++ (batchAt? V id ⟨t, e, t'⟩).toList) (cs ++ ingestsAt id ⟨t, e, t'⟩) := by
    rwa [batchAt?_of_ne hne, ingestsAt_of_ne hne, Option.toList_none, List.append_nil,
      List.append_nil]
  cases fares_of_happens hsound he id with
  | @goes j calls s work he' hj hg ht hj' =>
    subst he'
    obtain ⟨hbatch, hingests⟩ := seen_of_goes V t' hj (by rw [ht]; rfl)
    rw [hj, Option.map_some] at h
    rw [hbatch, hingests, hj', Option.map_some]
    by_cases hstream : ∃ instrument stage, j.work = .stream instrument stage
    · obtain ⟨instrument, stage, hw⟩ := hstream
      rw [hw] at h hg ⊢
      cases hg with
      | stream hg => exact h.goes hg
    · obtain ⟨hmade, hfilter, hrests, hrests'⟩ :=
        hg.quiet fun instrument stage hw => hstream ⟨instrument, stage, hw⟩
      rw [hmade, hfilter, Option.toList_none, List.append_nil, List.append_nil]
      exact h.rest hrests hrests'
  | halts he' hj hstopped hh ht hj' =>
    refine hquiet (by simp [he']) ?_
    rw [hj, Option.map_some] at h
    rw [hj']
    exact h.rest hh.rests (rests_some rfl)
  | begins he' hj hj' hfresh =>
    refine hquiet (by rcases he' with rfl | ⟨_, _, rfl⟩ <;> simp) ?_
    rw [hj] at h
    rw [hj']
    exact h.rest rests_none hfresh.rests
  | @leaves j he' hj hover hj' =>
    refine hquiet (by rcases he' with rfl | ⟨_, rfl⟩ <;> simp) ?_
    rw [hj] at h
    rw [hj']
    exact h.rest (rests_of_over hover) rests_none
  | stays he' hj' =>
    refine hquiet he' ?_
    rwa [hj']

/-! ## Whole histories -/

theorem batches_concat (h : List (Incident (Timed (Watched σ ι τ)) (Event σ ι)))
    (x : Incident (Timed (Watched σ ι τ)) (Event σ ι)) :
    batches V id (h ++ [x]) = batches V id h ++ (batchAt? V id x).toList :=
  filterMap_concat h x _

theorem ingests_concat (h : List (Incident (Timed (Watched σ ι τ)) (Event σ ι)))
    (x : Incident (Timed (Watched σ ι τ)) (Event σ ι)) :
    ingests id (h ++ [x]) = ingests id h ++ ingestsAt id x :=
  flatMap_concat h x _

theorem sound_of_history {config : Config ι} {a : σ} {start : Nat}
    {h : List (Incident (Timed (Watched σ ι τ)) (Event σ ι))}
    (hist : History (happens V S) ⟨start, .new config (a, [])⟩ h t) : Sound t.world := by
  induction hist with
  | nil => exact .new config a
  | snoc _ he ih => exact ih.next he

theorem standing_of_history {config : Config ι} {a : σ} {start : Nat}
    {h : List (Incident (Timed (Watched σ ι τ)) (Event σ ι))}
    (hist : History (happens V S) ⟨start, .new config (a, [])⟩ h t) (id : Nat) :
    Standing S.downstream.isSome ((t.world.job? id).map Job.work) (batches V id h)
      (ingests id h) := by
  induction hist with
  | nil => exact .resting rests_none .nil
  | snoc hist he ih =>
    rw [batches_concat, ingests_concat]
    exact ih.next (sound_of_history hist) he

/-! ## What must come -/

/-- A batch under way is not stopped, and the loop does not have to wait. -/
theorem ready_of_ingesting {j : Job ι} (hj : t.world.job? id = some j)
    (hbusy : j.work.isIngesting = true) :
    happens V S (.move (.goOn id)) t ≠ none ∧ happens V S (.move (.halt id)) t = none := by
  obtain ⟨i, run, work⟩ := j
  simp only [happens, step, hj, Option.bind_some]
  cases work with
  | stream instrument stage =>
    refine ⟨?_, ?_⟩
    · cases stage with
      | storing stream batch again => simp [goOn, goStream_storing]
      | forwarding stream batch => simp [goOn, goStream]
      | _ => cases hbusy
    · cases stage with
      | storing stream batch again => simp [halt]
      | forwarding stream batch => simp [halt]
      | _ => cases hbusy
  | _ => cases hbusy

/-- The steps that a batch under way may still take. -/
def stepsLeft : Work ι → Nat
  | .stream _ (.storing _ _ false) => 3
  | .stream _ (.storing _ _ true) => 2
  | .stream _ (.forwarding _ _) => 1
  | _ => 0

theorem stepsLeft_of_goes (h : WorkGoes V S now w work calls s work')
    (hbusy : work.isIngesting = true) :
    stepsLeft work' < stepsLeft work ∧ made V calls work = none := by
  cases h with
  | pass _ | poll _ => cases hbusy
  | stream h =>
    cases h with
    | @stores _ _ _ again => cases again <;> exact ⟨by simp [stepsLeft], rfl⟩
    | retries _ | loses _ | keeps _ | forwards _ _ => exact ⟨by simp [stepsLeft], rfl⟩
    | _ => cases hbusy

theorem stays_of_ingesting {j : Job ι} (hsound : Sound t.world) (hj : t.world.job? id = some j)
    (hbusy : j.work.isIngesting = true) (he : happens V S e t = some t')
    (hne : e ≠ .move (.goOn id)) : t'.world.job? id = some j := by
  cases fares_of_happens hsound he id with
  | goes he' => exact absurd he' hne
  | halts _ hj' _ hh =>
    cases hj.symm.trans hj'
    exact absurd (hh.rests _ rfl) (by simp [hbusy])
  | begins _ hj' => cases hj.symm.trans hj'
  | leaves _ hj' hover =>
    cases hj.symm.trans hj'
    exact absurd (rests_of_over hover _ rfl) (by simp [hbusy])
  | stays _ hj' => exact hj'.trans hj

theorem goes_of_ingesting {j : Job ι} (hsound : Sound t.world) (hj : t.world.job? id = some j)
    (hbusy : j.work.isIngesting = true) (he : happens V S (.move (.goOn id)) t = some t') :
    ∃ j', t'.world.job? id = some j' ∧ stepsLeft j'.work < stepsLeft j.work ∧
      batchAt? V id ⟨t, .move (.goOn id), t'⟩ = none := by
  cases fares_of_happens hsound he id with
  | goes _ hj₁ hg ht hj' =>
    cases hj.symm.trans hj₁
    obtain ⟨hless, hmade⟩ := stepsLeft_of_goes hg hbusy
    have hbatch := (seen_of_goes V t' hj (by rw [ht]; rfl)).1
    exact ⟨_, hj', hless, hbatch.trans hmade⟩
  | halts he' | begins he' | leaves he' => simp at he'
  | stays hne _ => exact absurd rfl hne

/-- A loop that is treated justly finishes the batch that is under way before it takes another. -/
theorem rests_finally {s : Nat → Timed (Watched σ ι τ)} {e : Nat → Event σ ι}
    (hend : Endless (happens V S) s e) (hsound : ∀ i, Sound (s i).world)
    (hjust : Just (happens V S) s e (.move (.goOn id))) {i : Nat} {j : Job ι}
    (hj : (s i).world.job? id = some j) :
    ∃ k, i ≤ k ∧ Rests (((s k).world.job? id).map Job.work) ∧
      batches V id (incidents s e k) = batches V id (incidents s e i) := by
  -- the job stays as it is until it goes on, and each time it goes on fewer steps are left
  induction hn : stepsLeft j.work using Nat.strongRecOn generalizing i j with
  | _ n ih =>
    by_cases hbusy : j.work.isIngesting = true
    · have hkeep : ∀ k, i ≤ k →
          ((s k).world.job? id = some j ∧
            batches V id (incidents s e k) = batches V id (incidents s e i)) →
          e k ≠ .move (.goOn id) → (s (k + 1)).world.job? id = some j ∧
            batches V id (incidents s e (k + 1)) = batches V id (incidents s e i) := by
        rintro k - ⟨hk, hsame⟩ hne
        refine ⟨stays_of_ingesting (hsound k) hk hbusy (hend.goes k) hne, ?_⟩
        rw [incidents_succ, batches_concat, batchAt?_of_ne hne, hsame]
        exact List.append_nil _
      obtain ⟨k, hk, ⟨hjk, hsame⟩, hevent⟩ := hjust.comes ⟨hj, rfl⟩ hkeep fun hlast =>
        ⟨i, fun k hk => (ready_of_ingesting (hlast k hk).1 hbusy).1⟩
      obtain ⟨j', hj', hless, hnone⟩ :=
        goes_of_ingesting (hsound k) hjk hbusy (hevent ▸ hend.goes k)
      obtain ⟨m, hm, hrests, hsame'⟩ := ih _ (hn ▸ hless) hj' rfl
      refine ⟨m, by omega, hrests, ?_⟩
      rw [hsame', incidents_succ, batches_concat, hevent, hnone, hsame]
      exact List.append_nil _
    · refine ⟨i, Nat.le_refl i, ?_, rfl⟩
      rw [hj]
      exact rests_some (by simpa using hbusy)

end

end World
end Collector
end MarketFeed
