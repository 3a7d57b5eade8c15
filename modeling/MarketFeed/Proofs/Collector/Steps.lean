import MarketFeed.Proofs.Collector.Calls

/-!
# MarketFeed.Proofs.Collector.Steps

All that a job of a collector can do next, with the calls that it makes.

* `PassGoes`, `PollGoes`, `LoopGoes`, `WorkGoes` — how a job goes on: its calls, what is around it
  then, and where it is then; `goOn_cases` — there are no other ways.
* `Halts`, `halt_cases` — how a loop ends where it looks for the stop.
* `goOn_of_goes`, `halt_of_halts` — a job that can do so goes on, or halts.
-/

namespace MarketFeed
namespace Collector

/-- A batch that is under way is not empty. -/
def Work.Filled {ι : Type} : Work ι → Prop
  | .stream _ (.storing _ batch _) => batch ≠ []
  | .stream _ (.forwarding _ batch) => batch ≠ []
  | _ => True

namespace World

/-- A collector whose surroundings keep a log of its calls. -/
abbrev Watched (σ ι τ : Type) := World (σ × List (Call ι τ)) ι

section

variable {σ ι ρ τ : Type}

/-- The collector after some calls, which left this around it. -/
def called (w : Watched σ ι τ) (s : σ) (calls : List (Call ι τ)) : Watched σ ι τ :=
  { w with around := (s, w.around.2 ++ calls) }

theorem called_nil (w : Watched σ ι τ) : w.called w.around.1 [] = w := by
  rw [called, List.append_nil]

/-! ## What a job does -/

variable (V : Venue ι ρ τ) (S : Surroundings σ ι ρ τ) (now : Nat)

/-- What a pass does when it goes on: its calls, what is around it then, and where it is then. -/
inductive PassGoes (s : σ) (instrument : ι) (interval : Interval) :
    PassStage → List (Call ι τ) → σ → PassStage → Prop where
  | fetches {fetch : Nat} {rows : List ρ} {s' : σ}
      (h : S.fetched? now fetch s = some (.ok rows, s')) :
      PassGoes s instrument interval (.fetching fetch) [] s'
        (.storing (V.bars instrument interval rows))
  | fails {fetch : Nat} {e : VenueError} {s' : σ}
      (h : S.fetched? now fetch s = some (.error e, s')) :
      PassGoes s instrument interval (.fetching fetch) [] s' (.finished (.error (.venue e)))
  /-- Without bars the store is not asked. -/
  | skips : PassGoes s instrument interval (.storing []) [] s (.finished (.ok 0))
  | stores {bars : List Bar} {r : Except StoreError Nat} {s' : σ} (hne : bars ≠ [])
      (h : S.persistBars now bars s = (r, s')) :
      PassGoes s instrument interval (.storing bars) [.storeBars bars r.isOk] s'
        (.finished (r.mapError .store))

/-- What a polling loop does when it goes on. -/
inductive PollGoes (w : Watched σ ι τ) (instrument : ι) (interval : Interval) :
    PollStage → List (Call ι τ) → σ → Work ι → Prop where
  | stops (h : w.stopped = true) : PollGoes w instrument interval .starting [] w.around.1 .ended
  | asks {fetch : Nat} {s : σ} (h : w.stopped = false)
      (hf : S.fetch now instrument (.latest interval w.config.lookback) w.around.1 = (fetch, s)) :
      PollGoes w instrument interval .starting
        [.fetch instrument (.latest interval w.config.lookback)] s
        (.poll instrument interval (.passing (.fetching fetch)))
  | passes {stage stage' : PassStage} {calls : List (Call ι τ)} {s : σ}
      (h : PassGoes V S now w.around.1 instrument interval stage calls s stage') :
      PollGoes w instrument interval (.passing stage) calls s
        (.poll instrument interval (.passing stage'))
  | pauses {result : Except Failure Nat} :
      PollGoes w instrument interval (.passing (.finished result)) [] w.around.1
        (.poll instrument interval (.pausing (now + w.config.pollInterval.toNanos)))
  | resumes {due : Nat} (hdue : due ≤ now) :
      PollGoes w instrument interval (.pausing due) [] w.around.1
        (.poll instrument interval .starting)

/-- What a streaming loop does when it goes on. -/
inductive LoopGoes (w : Watched σ ι τ) (instrument : ι) :
    StreamStage → List (Call ι τ) → σ → Work ι → Prop where
  | stops (h : w.stopped = true) : LoopGoes w instrument .starting [] w.around.1 .ended
  | opens {stream : Nat} {s : σ} (h : w.stopped = false)
      (ho : S.openStream now instrument w.around.1 = (.ok stream, s)) :
      LoopGoes w instrument .starting [.openStream instrument (some stream)] s
        (.stream instrument (.receiving stream))
  | fails {e : VenueError} {s : σ} (h : w.stopped = false)
      (ho : S.openStream now instrument w.around.1 = (.error e, s)) :
      LoopGoes w instrument .starting [.openStream instrument none] s
        (.stream instrument (.pausing (now + w.config.streamRestartDelay.toNanos)))
  /-- Nothing comes of the trades taken. -/
  | passesOver {stream : Nat} {first : τ} {rest : List τ} {s s' : σ}
      (hr : S.receive stream w.around.1 = (.item first, s))
      (hg : S.gather stream (w.batchSize - 1) s = (rest, s'))
      (hnone : V.ticks instrument (first :: rest) = []) :
      LoopGoes w instrument (.receiving stream) ((first :: rest).map (.receive stream)) s'
        (.stream instrument (.receiving stream))
  | takes {stream : Nat} {first : τ} {rest : List τ} {s s' : σ}
      (hr : S.receive stream w.around.1 = (.item first, s))
      (hg : S.gather stream (w.batchSize - 1) s = (rest, s'))
      (hsome : V.ticks instrument (first :: rest) ≠ []) :
      LoopGoes w instrument (.receiving stream) ((first :: rest).map (.receive stream)) s'
        (.stream instrument (.storing stream (V.ticks instrument (first :: rest)) false))
  | ends {stream : Nat} {s : σ} (hr : S.receive stream w.around.1 = (.ended, s)) :
      LoopGoes w instrument (.receiving stream) [.dropStream stream] (S.dropStream stream s)
        (.stream instrument (.pausing (now + w.config.streamRestartDelay.toNanos)))
  | stores {stream n : Nat} {batch : List Tick} {again : Bool} {s : σ}
      (h : S.persistTicks now batch w.around.1 = (.ok n, s)) :
      LoopGoes w instrument (.storing stream batch again) [.storeTicks batch true] s
        (.stream instrument (.forwarding stream batch))
  | retries {stream : Nat} {batch : List Tick} {e : StoreError} {s : σ}
      (h : S.persistTicks now batch w.around.1 = (.error e, s)) :
      LoopGoes w instrument (.storing stream batch false) [.storeTicks batch false] s
        (.stream instrument (.storing stream batch true))
  | loses {stream : Nat} {batch : List Tick} {e : StoreError} {s : σ}
      (h : S.persistTicks now batch w.around.1 = (.error e, s)) :
      LoopGoes w instrument (.storing stream batch true) [.storeTicks batch false] s
        (.stream instrument (.receiving stream))
  /-- There is nowhere to send a batch on to. -/
  | keeps {stream : Nat} {batch : List Tick} (hd : S.downstream = none) :
      LoopGoes w instrument (.forwarding stream batch) [] w.around.1
        (.stream instrument (.receiving stream))
  | forwards {stream publication : Nat} {batch : List Tick} {d : Downstream σ} {s : σ}
      (hd : S.downstream = some d) (hp : d.publish now batch w.around.1 = (publication, s)) :
      LoopGoes w instrument (.forwarding stream batch) [.publish batch] s
        (.stream instrument (.publishing stream publication))
  | resumes {stream publication : Nat} {s : σ}
      (h : S.downstream = none ∧ s = w.around.1 ∨
        ∃ d r, S.downstream = some d ∧ d.published? publication w.around.1 = some (r, s)) :
      LoopGoes w instrument (.publishing stream publication) [] s
        (.stream instrument (.receiving stream))
  | restarts {due : Nat} (hdue : due ≤ now) :
      LoopGoes w instrument (.pausing due) [] w.around.1 (.stream instrument .starting)

/-- What a job does when it goes on. -/
inductive WorkGoes (w : Watched σ ι τ) : Work ι → List (Call ι τ) → σ → Work ι → Prop where
  | pass {instrument : ι} {request : HistoryRequest} {stage stage' : PassStage}
      {calls : List (Call ι τ)} {s : σ}
      (h : PassGoes V S now w.around.1 instrument request.interval stage calls s stage') :
      WorkGoes w (.pass instrument request stage) calls s (.pass instrument request stage')
  | poll {instrument : ι} {interval : Interval} {stage : PollStage} {calls : List (Call ι τ)}
      {s : σ} {work : Work ι} (h : PollGoes V S now w instrument interval stage calls s work) :
      WorkGoes w (.poll instrument interval stage) calls s work
  | stream {instrument : ι} {stage : StreamStage} {calls : List (Call ι τ)} {s : σ}
      {work : Work ι} (h : LoopGoes V S now w instrument stage calls s work) :
      WorkGoes w (.stream instrument stage) calls s work

/-- How a loop ends that was stopped: its calls, and what is around it then. -/
inductive Halts (s : σ) : Work ι → List (Call ι τ) → σ → Prop where
  | poll {instrument : ι} {interval : Interval} {due : Nat} :
      Halts s (.poll instrument interval (.pausing due)) [] s
  | pause {instrument : ι} {due : Nat} : Halts s (.stream instrument (.pausing due)) [] s
  | receive {instrument : ι} {stream : Nat} :
      Halts s (.stream instrument (.receiving stream)) [.dropStream stream]
        (S.dropStream stream s)

end

/-! ## There are no other ways -/

section Jobs

variable {σ ι ρ τ : Type} {V : Venue ι ρ τ} {S : Surroundings σ ι ρ τ} {now : Nat}
  {w w' : Watched σ ι τ} {j : Job ι}

theorem goPass_cases {instrument : ι} {interval : Interval} {stage : PassStage}
    {p : PassStage × Watched σ ι τ}
    (h : w.goPass V S.observed now instrument interval stage = some p) :
    ∃ calls s, PassGoes V S now w.around.1 instrument interval stage calls s p.1 ∧
      p.2 = w.called s calls := by
  cases stage with
  | fetching fetch =>
    rw [goPass_fetching] at h
    obtain ⟨q, hq, rfl⟩ := Option.map_eq_some_iff.1 h
    obtain ⟨⟨r, s⟩, hr, rfl⟩ := Option.map_eq_some_iff.1 hq
    have hlog : (⟨w.config, w.stopped, w.jobs, w.nextId, w.runs, w.finished, s, w.around.2⟩ :
        Watched σ ι τ) = w.called s [] := by rw [called, List.append_nil]
    cases r with
    | ok rows => exact ⟨[], s, .fetches hr, hlog⟩
    | error e => exact ⟨[], s, .fails hr, hlog⟩
  | storing bars =>
    rw [goPass_storing] at h
    cases h
    by_cases hne : bars = []
    · subst hne
      exact ⟨[], w.around.1, .skips, (called_nil w).symm⟩
    · rw [show w.around = (w.around.1, w.around.2) from rfl, Surroundings.storeBars_observed hne]
      exact ⟨_, _, .stores hne rfl, rfl⟩
  | finished result => cases h

theorem goPoll_cases {id : Nat} {instrument : ι} {interval : Interval} {stage : PollStage}
    (h : w.goPoll V S.observed now id instrument interval stage = some w') :
    ∃ calls s work, PollGoes V S now w instrument interval stage calls s work ∧
      w' = (w.called s calls).setWork id work := by
  cases stage with
  | starting =>
    rw [goPoll_starting] at h
    split at h
    · rename_i hstopped
      cases h
      exact ⟨_, _, _, .stops hstopped, by rw [called_nil]⟩
    · rename_i hstopped
      cases h
      exact ⟨_, _, _, .asks (by simpa using hstopped) rfl, rfl⟩
  | passing stage =>
    by_cases hover : ∃ result, stage = .finished result
    · obtain ⟨result, rfl⟩ := hover
      cases h
      exact ⟨_, _, _, .pauses, by rw [called_nil]⟩
    · rw [goPoll_passing fun result heq => hover ⟨result, heq⟩] at h
      obtain ⟨p, hp, rfl⟩ := Option.map_eq_some_iff.1 h
      obtain ⟨calls, s, hgoes, hw⟩ := goPass_cases hp
      exact ⟨calls, s, _, .passes hgoes, by rw [hw]⟩
  | pausing due =>
    rw [goPoll] at h
    split at h
    · rename_i hdue
      cases h
      exact ⟨_, _, _, .resumes hdue, by rw [called_nil]⟩
    · cases h

theorem takeBatch_cases {id stream : Nat} {instrument : ι} {first : τ} {s : σ}
    (hr : S.receive stream w.around.1 = (.item first, s)) :
    ∃ calls s' work, LoopGoes V S now w instrument (.receiving stream) calls s' work ∧
      (w.called s [.receive stream first]).takeBatch V S.observed id instrument stream first =
        (w.called s' calls).setWork id work := by
  rw [takeBatch_eq]
  simp only [called, Surroundings.gather_observed, List.isEmpty_iff]
  have hlog (rest : List τ) :
      w.around.2 ++ [Call.receive stream first] ++ rest.map (.receive stream) =
        w.around.2 ++ (first :: rest).map (.receive stream) := by
    rw [List.append_assoc]
    rfl
  split
  · rename_i hnone
    exact ⟨_, _, _, .passesOver hr rfl hnone, by rw [hlog]; rfl⟩
  · rename_i hsome
    exact ⟨_, _, _, .takes hr rfl hsome, by rw [hlog]; rfl⟩

theorem goStream_cases {id : Nat} {instrument : ι} {stage : StreamStage}
    (h : w.goStream V S.observed now id instrument stage = some w')
    (hfilled : (Work.stream instrument stage).Filled) :
    ∃ calls s work, LoopGoes V S now w instrument stage calls s work ∧
      w' = (w.called s calls).setWork id work := by
  cases stage with
  | starting =>
    rw [goStream_starting] at h
    split at h
    · rename_i hstopped
      cases h
      exact ⟨_, _, _, .stops hstopped, by rw [called_nil]⟩
    · rename_i hstopped
      have hgoing : w.stopped = false := by simpa using hstopped
      rw [show S.observed.openStream now instrument w.around =
        ((S.openStream now instrument w.around.1).1, (S.openStream now instrument w.around.1).2,
          w.around.2 ++ [Call.openStream instrument
            (S.openStream now instrument w.around.1).1.toOption]) from rfl] at h
      cases ho : S.openStream now instrument w.around.1 with
      | mk r s =>
        rw [ho] at h
        cases r with
        | ok stream =>
          cases h
          exact ⟨_, _, _, .opens hgoing ho, rfl⟩
        | error e =>
          cases h
          exact ⟨_, _, _, .fails hgoing ho, rfl⟩
  | receiving stream =>
    rw [goStream_receiving, show w.around = (w.around.1, w.around.2) from rfl,
      Surroundings.receive_observed] at h
    cases hr : S.receive stream w.around.1 with
    | mk r s =>
      rw [hr] at h
      cases r with
      | item first =>
        cases h
        exact takeBatch_cases hr
      | empty => cases h
      | ended =>
        cases h
        exact ⟨_, _, _, .ends hr, by simp only [Call.ofReceived, List.append_nil]; rfl⟩
  | storing stream batch again =>
    rw [goStream_storing, show w.around = (w.around.1, w.around.2) from rfl,
      Surroundings.storeTicks_observed hfilled] at h
    cases hs : S.persistTicks now batch w.around.1 with
    | mk r s =>
      rw [hs] at h
      cases h
      cases r with
      | ok n => exact ⟨_, _, _, .stores hs, rfl⟩
      | error e =>
        cases again with
        | false => exact ⟨_, _, _, .retries hs, rfl⟩
        | true => exact ⟨_, _, _, .loses hs, rfl⟩
  | forwarding stream batch =>
    cases h
    cases hd : S.downstream with
    | none =>
      rw [forward_of_none (show S.observed.downstream = none from congrArg (Option.map _) hd)]
      exact ⟨_, _, _, .keeps hd, by rw [called_nil]⟩
    | some d =>
      rw [forward_of_some (show S.observed.downstream = some _ from congrArg (Option.map _) hd)]
      exact ⟨_, _, _, .forwards hd rfl, rfl⟩
  | publishing stream publication =>
    rw [goStream_publishing] at h
    cases hd : S.downstream with
    | none =>
      rw [show S.observed.downstream = none from congrArg (Option.map _) hd] at h
      cases h
      exact ⟨_, _, _, .resumes (.inl ⟨hd, rfl⟩), by rw [called_nil]⟩
    | some d =>
      rw [show S.observed.downstream = some _ from congrArg (Option.map _) hd] at h
      obtain ⟨q, hq, rfl⟩ := Option.map_eq_some_iff.1 h
      obtain ⟨⟨r, s⟩, hr, rfl⟩ := Option.map_eq_some_iff.1 hq
      refine ⟨_, _, _, .resumes (.inr ⟨d, r, hd, hr⟩), ?_⟩
      rw [called, List.append_nil]
  | pausing due =>
    rw [goStream] at h
    split at h
    · rename_i hdue
      cases h
      exact ⟨_, _, _, .restarts hdue, by rw [called_nil]⟩
    · cases h

theorem goOn_cases (h : w.goOn V S.observed now j = some w') (hfilled : j.work.Filled) :
    ∃ calls s work, WorkGoes V S now w j.work calls s work ∧
      w' = (w.called s calls).setWork j.id work := by
  obtain ⟨id, run, work⟩ := j
  cases work with
  | pass instrument request stage =>
    obtain ⟨p, hp, rfl⟩ := Option.map_eq_some_iff.1 h
    obtain ⟨calls, s, hgoes, hw⟩ := goPass_cases hp
    exact ⟨calls, s, _, .pass hgoes, by rw [hw]⟩
  | poll instrument interval stage =>
    obtain ⟨calls, s, work, hgoes, hw⟩ := goPoll_cases h
    exact ⟨calls, s, work, .poll hgoes, hw⟩
  | stream instrument stage =>
    obtain ⟨calls, s, work, hgoes, hw⟩ := goStream_cases h hfilled
    exact ⟨calls, s, work, .stream hgoes, hw⟩
  | ended => cases h

theorem halt_cases (h : w.halt S.observed j = some w') :
    w.stopped = true ∧ ∃ calls s, Halts S w.around.1 j.work calls s ∧
      w' = (w.called s calls).setWork j.id .ended := by
  by_cases hstopped : w.stopped = true
  · refine ⟨hstopped, ?_⟩
    rw [halt_of_stopped hstopped] at h
    split at h
    · rename_i hw
      cases h
      rw [hw]
      exact ⟨_, _, .poll, by rw [called_nil]⟩
    · rename_i hw
      cases h
      rw [hw]
      exact ⟨_, _, .pause, by rw [called_nil]⟩
    · rename_i hw
      cases h
      rw [hw]
      exact ⟨_, _, .receive, rfl⟩
    · cases h
  · rw [halt, if_neg hstopped] at h
    cases h

end Jobs

/-! ## All of these are ways -/

section Ways

variable {σ ι ρ τ : Type} {V : Venue ι ρ τ} {S : Surroundings σ ι ρ τ} {now : Nat}
  {w : Watched σ ι τ} {j : Job ι} {calls : List (Call ι τ)} {s : σ} {work : Work ι}

theorem goPass_of_goes {instrument : ι} {interval : Interval} {stage stage' : PassStage}
    (h : PassGoes V S now w.around.1 instrument interval stage calls s stage') :
    w.goPass V S.observed now instrument interval stage = some (stage', w.called s calls) := by
  have hfetched {n : Nat} {r : Except VenueError (List ρ)} {s' : σ}
      (h : S.fetched? now n w.around.1 = some (r, s')) :
      S.observed.fetched? now n w.around = some (r, s', w.around.2) := by
    rw [show S.observed.fetched? now n w.around =
      (S.fetched? now n w.around.1).map fun p => (p.1, p.2, w.around.2) from rfl, h]
    rfl
  cases h with
  | fetches h =>
    rw [goPass_fetching, hfetched h, called, List.append_nil]
    rfl
  | fails h =>
    rw [goPass_fetching, hfetched h, called, List.append_nil]
    rfl
  | skips =>
    rw [goPass_storing, called_nil]
    rfl
  | stores hne h =>
    rw [goPass_storing, show w.around = (w.around.1, w.around.2) from rfl,
      Surroundings.storeBars_observed hne, h]
    rfl

theorem goPoll_of_goes {id : Nat} {instrument : ι} {interval : Interval} {stage : PollStage}
    (h : PollGoes V S now w instrument interval stage calls s work) :
    w.goPoll V S.observed now id instrument interval stage =
      some ((w.called s calls).setWork id work) := by
  cases h with
  | stops h => rw [goPoll_starting, if_pos h, called_nil]
  | asks h hf =>
    rw [goPoll_starting, if_neg (by simp [h]), show S.observed.fetch now instrument
      (.latest interval w.config.lookback) w.around = ((S.fetch now instrument
        (.latest interval w.config.lookback) w.around.1).1, (S.fetch now instrument
          (.latest interval w.config.lookback) w.around.1).2, _) from rfl, hf]
    rfl
  | passes h =>
    rw [goPoll_passing, goPass_of_goes h]
    · rfl
    · rintro result rfl
      cases h
  | pauses =>
    rw [called_nil]
    rfl
  | resumes hdue => rw [goPoll, if_pos hdue, called_nil]

theorem takeBatch_of_gather {id stream : Nat} {instrument : ι} {first : τ} {rest : List τ} {s₁ : σ}
    (hg : S.gather stream (w.batchSize - 1) s₁ = (rest, s)) :
    (w.called s₁ [.receive stream first]).takeBatch V S.observed id instrument stream first =
      (w.called s ((first :: rest).map (.receive stream))).setWork id (.stream instrument
        (if (V.ticks instrument (first :: rest)).isEmpty then .receiving stream
        else .storing stream (V.ticks instrument (first :: rest)) false)) := by
  rw [takeBatch_eq]
  simp only [batchSize] at hg
  simp only [called, batchSize, Surroundings.gather_observed, hg, List.append_assoc,
    List.singleton_append, List.map_cons]

theorem goStream_of_goes {id : Nat} {instrument : ι} {stage : StreamStage}
    (h : LoopGoes V S now w instrument stage calls s work)
    (hfilled : (Work.stream instrument stage).Filled) :
    w.goStream V S.observed now id instrument stage =
      some ((w.called s calls).setWork id work) := by
  have hopen : S.observed.openStream now instrument w.around =
      ((S.openStream now instrument w.around.1).1, (S.openStream now instrument w.around.1).2,
        w.around.2 ++ [Call.openStream instrument
          (S.openStream now instrument w.around.1).1.toOption]) := rfl
  have hreceive {stream : Nat} {r : Received τ} {s' : σ}
      (hr : S.receive stream w.around.1 = (r, s')) :
      S.observed.receive stream w.around = (r, s', w.around.2 ++ Call.ofReceived stream r) := by
    rw [show w.around = (w.around.1, w.around.2) from rfl, Surroundings.receive_observed, hr]
  have hstore {batch : List Tick} {r : Except StoreError Nat} {s' : σ}
      (hne : batch ≠ []) (h : S.persistTicks now batch w.around.1 = (r, s')) :
      S.observed.storeTicks now batch w.around =
        (r, s', w.around.2 ++ [.storeTicks batch r.isOk]) := by
    rw [show w.around = (w.around.1, w.around.2) from rfl, Surroundings.storeTicks_observed hne, h]
  cases h with
  | stops h => rw [goStream_starting, if_pos h, called_nil]
  | opens h ho =>
    rw [goStream_starting, if_neg (by simp [h]), hopen, ho]
    rfl
  | fails h ho =>
    rw [goStream_starting, if_neg (by simp [h]), hopen, ho]
    rfl
  | passesOver hr hg hnone =>
    rw [goStream_receiving, hreceive hr]
    exact (congrArg some (takeBatch_of_gather hg)).trans (by rw [hnone]; rfl)
  | takes hr hg hsome =>
    rw [goStream_receiving, hreceive hr]
    exact (congrArg some (takeBatch_of_gather hg)).trans (by rw [if_neg (by simpa using hsome)])
  | ends hr =>
    rw [goStream_receiving, hreceive hr]
    simp only [Call.ofReceived, List.append_nil]
    rfl
  | stores h =>
    rw [goStream_storing, hstore hfilled h]
    rfl
  | retries h =>
    rw [goStream_storing, hstore hfilled h]
    rfl
  | loses h =>
    rw [goStream_storing, hstore hfilled h]
    rfl
  | keeps hd =>
    rw [goStream, forward_of_none (show S.observed.downstream = none from
      congrArg (Option.map _) hd), called_nil]
  | forwards hd hp =>
    rw [goStream, forward_of_some (show S.observed.downstream = some _ from
      congrArg (Option.map _) hd)]
    simp only [hp]
    rfl
  | resumes h =>
    rw [goStream_publishing]
    rcases h with ⟨hd, rfl⟩ | ⟨d, r, hd, h⟩
    · rw [show S.observed.downstream = none from congrArg (Option.map _) hd, called_nil]
    · rw [show S.observed.downstream = some _ from congrArg (Option.map _) hd]
      simp only [h, Option.map_some, called, List.append_nil]
  | restarts hdue => rw [goStream, if_pos hdue, called_nil]

/-- What a job can do, it does when it goes on. -/
theorem goOn_of_goes (h : WorkGoes V S now w j.work calls s work) (hfilled : j.work.Filled) :
    w.goOn V S.observed now j = some ((w.called s calls).setWork j.id work) := by
  obtain ⟨id, run, work'⟩ := j
  cases h with
  | pass h => exact congrArg (Option.map _) (goPass_of_goes h)
  | poll h => exact goPoll_of_goes h
  | stream h => exact goStream_of_goes h hfilled

theorem halt_of_halts (hstopped : w.stopped = true) (h : Halts S w.around.1 j.work calls s) :
    w.halt S.observed j = some ((w.called s calls).setWork j.id .ended) := by
  obtain ⟨id, run, work'⟩ := j
  rw [halt_of_stopped hstopped]
  cases h with
  | poll | pause => rw [called_nil]
  | receive => rfl

end Ways

end World
end Collector
end MarketFeed
