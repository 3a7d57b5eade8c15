import MarketFeed.Proofs.Collector.Arrivals
import MarketFeed.Proofs.Collector.Batches

/-!
# MarketFeed.Proofs.Collector.Trades

A streaming loop loses no trade on the way to the store.

* `Batched` — the batches of a loop are the ticks of the trades that it took, a few at a time.
* `Arrives` — where streams are queues, it takes from the front what arrives, as much as waits and
  goes into a batch.
* `takes_finally`, `taken_finally` — what arrives is taken in the end.
* `trades_batched` — every loop of every collector, whatever happens.
* `script_queued` — the streams of a script are queues.
-/

namespace MarketFeed
namespace Collector

/-- The tick of a trade; none if it is no trade or has no valid time. -/
def Venue.tick? {ι ρ τ : Type} (V : Venue ι ρ τ) (instrument : ι) (trade : τ) : Option Tick :=
  (V.toTick trade instrument).toOption.join

theorem Venue.ticks_eq {ι ρ τ : Type} (V : Venue ι ρ τ) (instrument : ι) (trades : List τ) :
    V.ticks instrument trades = trades.filterMap (V.tick? instrument) := by
  refine List.filterMap_congr fun trade _ => ?_
  rw [tick?]
  cases V.toTick trade instrument with
  | ok tick => rfl
  | error e => rfl

/-- The ticks that a call passes on. -/
def Call.batch? {ι τ : Type} : Call ι τ → Option (List Tick)
  | .storeTicks batch _ => some batch
  | .publish batch => some batch
  | _ => none

namespace World

/-! ## Batches -/

section

variable {σ ι ρ τ : Type}

/-- What the batches of a loop are made of. -/
structure Batched (V : Venue ι ρ τ) (S : Surroundings σ ι ρ τ) (config : Config ι) (id : Nat)
    (h : List (Incident (Timed (Watched σ ι τ)) (Event σ ι))) : Prop where
  /-- One after another, the groups are what was taken. -/
  flatten : (groups id h).flatten = taken id h
  sized : ∀ group ∈ groups id h,
    1 ≤ group.length ∧ group.length ≤ max config.tickBatchSize.toNat 1
  /-- A group is taken at once, off one stream, and its ticks are what is stored next. -/
  takes : ∀ x ∈ h, takenAt id x = [] ∨ ∃ j instrument stream,
    Takes V S id x.before x.event x.after j instrument stream (takenAt id x)
  /-- A batch has the tick of each trade in its group, unless the trade has none. -/
  ticks : groups id h = [] ∧ batches V id h = [] ∨ ∃ instrument, Serves id h (some instrument) ∧
    batches V id h = (groups id h).map (·.filterMap (V.tick? instrument)) ∧
    (batches V id h).flatten = (taken id h).filterMap (V.tick? instrument)
  /-- The batches that are not empty are written, one after another, and no others. -/
  ingesting : Ingesting S.downstream.isSome (batches V id h) (ingests id h)

variable {V : Venue ι ρ τ} {S : Surroundings σ ι ρ τ} {config : Config ι} {a : σ} {start : Nat}
  {h : List (Incident (Timed (Watched σ ι τ)) (Event σ ι))} {t : Timed (Watched σ ι τ)} {id : Nat}

theorem batched_of_history (hist : History (happens V S) ⟨start, .new config (a, [])⟩ h t)
    (id : Nat) : Batched V S config id h := by
  have htakes := takes_of_history id hist
  refine ⟨flatten_groups, ?_, fun x hx => (htakes x hx).imp_right And.right, ?_,
    (standing_of_history hist id).ingesting⟩
  · intro group hg
    obtain ⟨x, hx, hgroup⟩ := mem_groups hg
    have hne := ne_nil_of_mem_groups hg
    refine ⟨List.length_pos_of_ne_nil hne, ?_⟩
    rcases htakes x hx with hnil | ⟨-, j, i, stream, htake⟩
    · exact absurd (hgroup.symm.trans hnil) hne
    · have hle := htake.length_le
      rw [hgroup, batchSize, (config_of_history hist).2 x hx] at hle
      exact hle
  · obtain ⟨instrument, hserving⟩ := serving_of_history hist id
    have hbatches := batches_of_history hist hserving.serves
    cases instrument with
    | none =>
      -- what takes a group is a loop for some instrument
      refine .inl ⟨List.eq_nil_iff_forall_not_mem.2 fun group hg => ?_, ?_⟩
      · obtain ⟨x, hx, hgroup⟩ := mem_groups hg
        rcases htakes x hx with hnil | ⟨-, j, i, stream, htake⟩
        · exact ne_nil_of_mem_groups hg (hgroup.symm.trans hnil)
        · cases hserving.serves x hx j i htake.job (by rw [htake.work]; rfl)
      · rw [hbatches]
        exact List.flatMap_eq_nil_iff.2 fun _ _ => rfl
    | some i =>
      have hmap : batches V id h = (groups id h).map (·.filterMap (V.tick? i)) := by
        rw [hbatches, List.map_eq_flatMap]
        exact List.flatMap_congr fun group _ => congrArg (fun b => [b]) (V.ticks_eq i group)
      refine .inr ⟨i, hserving.serves, hmap, ?_⟩
      rw [hmap, ← flatten_groups, List.filterMap_flatten]

/-- The calls that a batch causes pass it on, and there are none if it is empty. -/
theorem Ingested.passes {sends : Bool} {batch : List Tick} {calls : List (Call ι τ)}
    (h : Ingested sends batch calls) {c : Call ι τ} (hc : c ∈ calls) :
    c.batch? = some batch ∧ batch ≠ [] := by
  have hpasses : ∀ c ∈ calls, c.batch? = some batch := by
    cases h <;> cases sends <;> simp [sent, Call.batch?]
  refine ⟨hpasses c hc, ?_⟩
  cases h with
  | empty => exact absurd hc List.not_mem_nil
  | stored hne | retried hne | lost hne => exact hne

theorem IngestedAll.passes {sends : Bool} {batches : List (List Tick)} {calls : List (Call ι τ)}
    (h : IngestedAll sends batches calls) :
    ∀ c ∈ calls, ∃ batch ∈ batches, c.batch? = some batch ∧ batch ≠ [] := by
  induction h with
  | nil => exact fun c hc => absurd hc List.not_mem_nil
  | snoc _ hb ih =>
    intro c hc
    rcases List.mem_append.1 hc with hc | hc
    · obtain ⟨batch, hbatch, hpasses⟩ := ih c hc
      exact ⟨batch, List.mem_append_left _ hbatch, hpasses⟩
    · exact ⟨_, List.mem_append_right _ (List.mem_singleton_self _), hb.passes hc⟩

theorem Ingesting.passes {sends : Bool} {batches : List (List Tick)} {calls : List (Call ι τ)}
    (h : Ingesting sends batches calls) :
    ∀ c ∈ calls, ∃ batch ∈ batches, c.batch? = some batch ∧ batch ≠ [] := by
  cases h with
  | done h => exact h.passes
  | within more h hb =>
    intro c hc
    rcases List.mem_append.1 hc with hc | hc
    · obtain ⟨batch, hbatch, hpasses⟩ := h.passes c hc
      exact ⟨batch, List.mem_append_left _ hbatch, hpasses⟩
    · exact ⟨_, List.mem_append_right _ (List.mem_singleton_self _),
        hb.passes (List.mem_append_left _ hc)⟩

/-- Trades are received only where a job goes on. -/
theorem received_of_happens {t' : Timed (Watched σ ι τ)} {e : Event σ ι} (hsound : Sound t.world)
    (he : happens V S e t = some t') :
    (callsAt ⟨t, e, t'⟩).filterMap Call.trade? = [] ∨ ∃ id, e = .move (.goOn id) := by
  cases occurs_of_happens hsound he with
  | goes hj hg => exact .inr ⟨_, rfl⟩
  | halts hj hstopped hh =>
    refine .inl ?_
    rw [callsAt_of_log rfl]
    exact hh.trades
  | fetches hf =>
    refine .inl ?_
    rw [callsAt_of_log rfl]
    rfl
  | starts =>
    refine .inl ?_
    rw [callsAt_of_log ((congrArg Prod.snd (log_start t.world)).trans (List.append_nil _).symm)]
    rfl
  | _ =>
    refine .inl ?_
    rw [callsAt_of_log (List.append_nil _).symm]
    rfl

/-- Every trade that was received was taken by a loop, and every batch that was passed on is one
that a loop made, and not empty. -/
theorem calls_of_history (hist : History (happens V S) ⟨start, .new config (a, [])⟩ h t) :
    t.world.around.2 = h.flatMap callsAt ∧
      (∀ x ∈ h, (callsAt x).filterMap Call.trade? = [] ∨
        ∃ id, (callsAt x).filterMap Call.trade? = takenAt id x) ∧
      ∀ c ∈ t.world.around.2, ∀ batch, c.batch? = some batch →
        batch ≠ [] ∧ ∃ id, batch ∈ batches V id h := by
  obtain ⟨hlog, hpasses⟩ := log_of_history hist
  refine ⟨hlog, ?_, ?_⟩
  · clear hlog hpasses
    induction hist with
    | nil => exact fun x hx => absurd hx List.not_mem_nil
    | snoc hist he ih =>
      intro x hx
      rcases List.mem_append.1 hx with hx | hx
      · exact ih x hx
      · obtain rfl := List.mem_singleton.1 hx
        refine (received_of_happens (sound_of_history hist) he).imp_right ?_
        rintro ⟨id, rfl⟩
        exact ⟨id, by simp only [takenAt, if_true]⟩
  · intro c hc batch hbatch
    rw [hlog] at hc
    obtain ⟨x, hx, hcx⟩ := List.mem_flatMap.1 hc
    have hp : c.passesTicks = true := by
      cases c <;> simp_all [Call.batch?, Call.passesTicks]
    obtain ⟨j, -, -, -, -, -, hmine⟩ := hpasses x hx c hcx hp
    obtain ⟨b, hb, hsome, hne⟩ := (standing_of_history hist j.id).ingesting.passes c
      (List.mem_flatMap.2 ⟨x, hx, hmine⟩)
    cases hbatch.symm.trans hsome
    exact ⟨hne, j.id, hb⟩

end

/-! ## Arrivals -/

section

variable {σ ι ρ τ : Type}

/-- What a loop has taken of what arrived for it. -/
structure Arrives (V : Venue ι ρ τ) (S : Surroundings σ ι ρ τ) (waiting : σ → Nat → Option (List τ))
    (config : Config ι) (id : Nat) (h : List (Incident (Timed (Watched σ ι τ)) (Event σ ι)))
    (t : Timed (Watched σ ι τ)) : Prop where
  /-- It takes what arrives in its order, and what it has not taken waits. -/
  order : taken id h ++ pending waiting id t <+: arrived waiting id h
  /-- Only a stop can lose something. -/
  all : t.world.stopped = false → arrived waiting id h = taken id h ++ pending waiting id t
  /-- It takes as much as waits and goes into a batch. -/
  front : ∀ x ∈ h, takenAt id x = [] ∨
    takenAt id x = (pending waiting id x.before).take (max config.tickBatchSize.toNat 1)
  /-- It waits for a trade only if there is none. -/
  waits : ∀ j instrument stream, t.world.job? id = some j →
    j.work = .stream instrument (.receiving stream) → happens V S (.move (.goOn id)) t = none →
      pending waiting id t = []

variable {V : Venue ι ρ τ} {S : Surroundings σ ι ρ τ} {waiting : σ → Nat → Option (List τ)}
  {config : Config ι} {a : σ} {start : Nat} {id : Nat}
  {h : List (Incident (Timed (Watched σ ι τ)) (Event σ ι))} {t t' : Timed (Watched σ ι τ)}
  {e : Event σ ι}

theorem Takes.front {j : Job ι} {instrument : ι} {stream : Nat} {group : List τ}
    (h : Takes V S id t e t' j instrument stream group) (hq : Queued S waiting)
    (ha : Apart waiting t) : group = (pending waiting id t).take t.world.batchSize := by
  have hheld : held id t = some stream := by
    rw [held_of_job h.job, h.work]
    rfl
  obtain ⟨trades, hw⟩ := ha.there id stream hheld
  obtain ⟨first, rest, s, rfl, hr, hg⟩ := h.received
  have hpos := batchSize_pos t.world
  obtain ⟨htake, -⟩ := gather_of_item hq hw hr hg
  rw [pending_of_held hheld hw, htake, Nat.sub_add_cancel hpos]

/-- A loop with trades waiting on its stream does not wait for a trade. -/
theorem Apart.receives (ha : Apart waiting t) (hq : Queued S waiting) {j : Job ι} {instrument : ι}
    {stream : Nat} (hj : t.world.job? id = some j)
    (hw : j.work = .stream instrument (.receiving stream)) (hne : pending waiting id t ≠ []) :
    happens V S (.move (.goOn id)) t ≠ none := by
  have hheld : held id t = some stream := by
    rw [held_of_job hj, hw]
    rfl
  obtain ⟨trades, hs⟩ := ha.there id stream hheld
  rw [pending_of_held hheld hs] at hne
  obtain ⟨trade, rest, rfl⟩ := List.exists_cons_of_ne_nil hne
  obtain ⟨s', hr, -⟩ := hq.next stream trade rest _ hs
  have hr' : (S.observed.receive stream t.world.around).1 = .item trade := congrArg Prod.fst hr
  simp only [happens, step, hj, Option.bind_some, goOn, hw, goStream_receiving, hr']
  simp

theorem arrives_of_history (hq : Queued S waiting)
    (hist : History (happens V S) ⟨start, .new config (a, [])⟩ h t) (hflow : Flowing waiting h)
    (id : Nat) : Arrives V S waiting config id h t := by
  have hend := flow_of_history hq hist hflow id
  refine ⟨?_, ?_, ?_, ?_⟩
  · rcases hend.flows with hall | ⟨-, hover, hprefix⟩
    · exact hall ▸ List.prefix_rfl
    · rwa [pending_of_not_held hover.not_held, List.append_nil]
  · intro hgoing
    rcases hend.flows with hall | ⟨hstopped, -⟩
    · exact hall
    · cases hgoing.symm.trans hstopped
  · clear hend
    induction hist with
    | nil => exact fun x hx => absurd hx List.not_mem_nil
    | @snoc h t t' e hist he ih =>
      have hflow' : Flowing waiting h := fun x hx => hflow x (List.mem_append_left _ hx)
      intro x hx
      rcases List.mem_append.1 hx with hx | hx
      · exact ih hflow' x hx
      · obtain rfl := List.mem_singleton.1 hx
        refine (takes_of_happens _ (sound_of_history hist) he).imp_right ?_
        rintro ⟨j, instrument, stream, htakes⟩
        have hfront := htakes.front hq (flow_of_history hq hist hflow' id).apart
        rw [batchSize, (config_of_history hist).1] at hfront
        exact hfront
  · intro j instrument stream hj hw hnone
    by_contra hne
    exact hend.apart.receives hq hj hw hne hnone

end

/-! ## What must come -/

section

variable {σ ι ρ τ : Type}

/-- The steps that a loop takes at most until it may take trades again. -/
def stepsToReceive : Work ι → Nat
  | .stream _ (.storing _ _ false) => 4
  | .stream _ (.storing _ _ true) => 3
  | .stream _ (.forwarding _ _) => 2
  | .stream _ (.publishing _ _) => 1
  | _ => 0

/-- The downstream answers a loop in the end, however long that takes. -/
def Answered (V : Venue ι ρ τ) (S : Surroundings σ ι ρ τ) (s : Nat → Timed (Watched σ ι τ))
    (id : Nat) : Prop :=
  ∀ i j instrument stream publication,
    j.work = .stream instrument (.publishing stream publication) →
    (∀ k, i ≤ k → (s k).world.job? id = some j) →
      ∃ k, ∀ m, k ≤ m → happens V S (.move (.goOn id)) (s m) ≠ none

variable {V : Venue ι ρ τ} {S : Surroundings σ ι ρ τ} {waiting : σ → Nat → Option (List τ)}
  {config : Config ι} {a : σ} {start id : Nat} {t t' : Timed (Watched σ ι τ)} {e : Event σ ι}

/-- Without a downstream there is nothing to wait for. -/
theorem answered_of_none (h : S.downstream = none) (s : Nat → Timed (Watched σ ι τ)) (id : Nat) :
    Answered V S s id := by
  intro i j instrument stream publication hw hlast
  refine ⟨i, fun m hm => ?_⟩
  have hd : S.observed.downstream = none := by
    rw [Surroundings.observed, h]
    rfl
  simp [happens, step, hlast m hm, goOn, hw, goStream_publishing, hd]

/-- A collector is stopped by nothing else than a stop. -/
theorem going_of_happens (hsound : Sound t.world) (he : happens V S e t = some t')
    (hstop : e ≠ .stop) (hgoing : t.world.stopped = false) : t'.world.stopped = false := by
  cases occurs_of_happens hsound he with
  | starts =>
    have hkeep : t.world.start.2.stopped = false :=
      start_keeps (P := fun w => w.stopped = false) (fun _ h => h) (fun _ _ _ _ h => h) hgoing
    exact hkeep
  | stops => exact absurd rfl hstop
  | _ => exact hgoing

/-- A loop that goes on with its stream takes trades, or is nearer to taking some. -/
theorem stepsToReceive_of_goes {now : Nat} {w : Watched σ ι τ} {work work' : Work ι}
    {calls : List (Call ι τ)} {s : σ} (h : WorkGoes V S now w work calls s work')
    (hheld : stream? work ≠ none) (hheld' : stream? work' ≠ none)
    (hno : calls.filterMap Call.trade? = []) : stepsToReceive work' < stepsToReceive work := by
  cases h with
  | pass _ | poll _ => exact absurd rfl hheld
  | stream h =>
    cases h with
    | stops _ | opens _ _ | fails _ _ | restarts _ => exact absurd rfl hheld
    | ends _ => exact absurd rfl hheld'
    | passesOver _ _ _ | takes _ _ _ =>
      rw [trades_of_receives] at hno
      cases hno
    | @stores _ _ _ again => cases again <;> simp [stepsToReceive]
    | _ => simp [stepsToReceive]

/-- A loop that has a stream and neither goes on nor halts stays as it is. -/
theorem job_of_other {j : Job ι} (hsound : Sound t.world) (he : happens V S e t = some t')
    (hgo : e ≠ .move (.goOn id)) (hhalt : e ≠ .move (.halt id)) (hj : t.world.job? id = some j)
    (hheld : stream? j.work ≠ none) : t'.world.job? id = some j := by
  cases fares_of_happens hsound he id with
  | goes he' => exact absurd he' hgo
  | halts he' => exact absurd he' hhalt
  | begins _ hj' => cases hj.symm.trans hj'
  | leaves _ hj' hover =>
    cases hj.symm.trans hj'
    exact absurd (held_of_over hover) hheld
  | stays _ hj' => exact hj'.trans hj

section

variable {s : Nat → Timed (Watched σ ι τ)} {e : Nat → Event σ ι}

theorem arrived_mono {i k : Nat} (h : i ≤ k) :
    arrived waiting id (incidents s e i) <+: arrived waiting id (incidents s e k) := by
  induction k, h using Nat.le_induction with
  | base => exact List.prefix_rfl
  | succ k _ ih =>
    rw [incidents_succ, arrived_concat]
    exact ih.trans (List.prefix_append _ _)

theorem held_of_pending {t : Timed (Watched σ ι τ)} {j : Job ι} (hj : t.world.job? id = some j)
    (hne : pending waiting id t ≠ []) : stream? j.work ≠ none := by
  intro hnone
  exact hne (pending_of_not_held ((held_of_job hj).trans hnone))

/-- A loop for which trades wait can go on for good if nothing else changes. -/
theorem ready_to_take (hq : Queued S waiting) (hapart : ∀ k, Apart waiting (s k))
    (hanswered : Answered V S s id) {i : Nat} {j : Job ι}
    (hlast : ∀ k, i ≤ k → (s k).world.job? id = some j ∧ pending waiting id (s k) ≠ []) :
    ∃ k, ∀ m, k ≤ m → happens V S (.move (.goOn id)) (s m) ≠ none := by
  have hbusy (hbusy : j.work.isIngesting = true) :
      ∃ k, ∀ m, k ≤ m → happens V S (.move (.goOn id)) (s m) ≠ none :=
    ⟨i, fun m hm => (ready_of_ingesting (hlast m hm).1 hbusy).1⟩
  have hheld := held_of_pending (hlast i (Nat.le_refl i)).1 (hlast i (Nat.le_refl i)).2
  obtain ⟨n, run, work⟩ := j
  cases work with
  | stream instrument stage =>
    cases stage with
    | receiving stream =>
      exact ⟨i, fun m hm => (hapart m).receives hq (hlast m hm).1 rfl (hlast m hm).2⟩
    | storing stream batch again => exact hbusy rfl
    | forwarding stream batch => exact hbusy rfl
    | publishing stream publication =>
      exact hanswered i _ instrument stream publication rfl fun m hm => (hlast m hm).1
    | starting => exact absurd rfl hheld
    | pausing due => exact absurd rfl hheld
  | _ => exact absurd rfl hheld

/-- A loop for which trades wait takes some. -/
theorem takes_finally (hend : Endless (happens V S) s e) (hq : Queued S waiting)
    (hsound : ∀ k, Sound (s k).world) (hapart : ∀ k, Apart waiting (s k))
    (hflow : ∀ k, Flowing waiting [⟨s k, e k, s (k + 1)⟩])
    (hgoing : ∀ k, (s k).world.stopped = false) (hanswered : Answered V S s id)
    (hjust : Just (happens V S) s e (.move (.goOn id))) {i : Nat} {j : Job ι}
    (hj : (s i).world.job? id = some j) (hne : pending waiting id (s i) ≠ []) :
    ∃ k, i < k ∧ (taken id (incidents s e i)).length < (taken id (incidents s e k)).length := by
  have hhalt (k : Nat) : e k ≠ .move (.halt id) := by
    intro hhalt
    have hstopped := (halts_of_halt (hsound k) (hhalt ▸ hend.goes k)).1
    rw [hgoing k] at hstopped
    cases hstopped
  have hconserves (k : Nat) := (hapart k).conserves hq (hsound k) (hend.goes k) (hflow k) (hhalt k)
  -- the loop stays as it is until it goes on, and then it takes some or fewer steps are left
  induction hn : stepsToReceive j.work using Nat.strongRecOn generalizing i j with
  | _ n ih =>
    have hkeep : ∀ k, i ≤ k → ((s k).world.job? id = some j ∧ pending waiting id (s k) ≠ [] ∧
          taken id (incidents s e k) = taken id (incidents s e i)) →
        e k ≠ .move (.goOn id) → (s (k + 1)).world.job? id = some j ∧
          pending waiting id (s (k + 1)) ≠ [] ∧
          taken id (incidents s e (k + 1)) = taken id (incidents s e i) := by
      rintro k - ⟨hjk, hnek, hsame⟩ hgo
      have hnone : takenAt id ⟨s k, e k, s (k + 1)⟩ = [] := takenAt_of_ne hgo
      have hheld := held_of_pending hjk hnek
      refine ⟨job_of_other (hsound k) (hend.goes k) hgo (hhalt k) hjk hheld, ?_, ?_⟩
      · have hsum := hconserves k
        rw [hnone, List.nil_append] at hsum
        rw [← hsum]
        exact List.append_ne_nil_of_left_ne_nil hnek _
      · rw [incidents_succ, taken_concat, hnone, hsame, List.append_nil]
    obtain ⟨k, hk, ⟨hjk, hnek, hsame⟩, hevent⟩ := hjust.comes ⟨hj, hne, rfl⟩ hkeep fun hlast =>
      ready_to_take hq hapart hanswered fun m hm => ⟨(hlast m hm).1, (hlast m hm).2.1⟩
    obtain ⟨j', calls, s', work, hj', hg, ht, hwork⟩ :=
      goes_of_goOn (hsound k) (hevent ▸ hend.goes k)
    cases hjk.symm.trans hj'
    have htaken : takenAt id ⟨s k, e k, s (k + 1)⟩ = calls.filterMap Call.trade? := by
      rw [hevent]
      simp only [takenAt, if_true]
      rw [callsAt_of_log (congrArg (fun t => t.world.around.2) ht)]
    by_cases hno : calls.filterMap Call.trade? = []
    · have hsum := hconserves k
      rw [htaken, hno, List.nil_append] at hsum
      have hne' : pending waiting id (s (k + 1)) ≠ [] :=
        hsum ▸ List.append_ne_nil_of_left_ne_nil hnek _
      have hless := stepsToReceive_of_goes hg (held_of_pending hjk hnek)
        (held_of_pending hwork hne') hno
      obtain ⟨m, hm, hmore⟩ := ih _ (hn ▸ hless) hwork hne' rfl
      refine ⟨m, by omega, ?_⟩
      rwa [incidents_succ, taken_concat, htaken, hno, List.append_nil, hsame] at hmore
    · refine ⟨k + 1, by omega, ?_⟩
      rw [incidents_succ, taken_concat, htaken, hsame, List.length_append]
      exact Nat.lt_add_of_pos_right (List.length_pos_of_ne_nil hno)

/-- What arrives for a loop that is treated justly is taken, unless the collector is stopped. -/
theorem taken_finally (hend : Endless (happens V S) s e)
    (hstart : s 0 = ⟨start, .new config (a, [])⟩) (hq : Queued S waiting)
    (hflow : ∀ k, Flowing waiting (incidents s e k))
    (hgoing : ∀ k, (s k).world.stopped = false) (hanswered : Answered V S s id)
    (hjust : Just (happens V S) s e (.move (.goOn id))) (i : Nat) :
    ∃ k, i ≤ k ∧ arrived waiting id (incidents s e i) <+: taken id (incidents s e k) := by
  have hhist (k : Nat) :
      History (happens V S) ⟨start, .new config (a, [])⟩ (incidents s e k) (s k) :=
    hstart ▸ hend.history k
  have hall (k : Nat) := (arrives_of_history hq (hhist k) (hflow k) id).all (hgoing k)
  have hflow' (k : Nat) : Flowing waiting [⟨s k, e k, s (k + 1)⟩] := by
    intro x hx
    refine hflow (k + 1) x ?_
    rw [incidents_succ]
    exact List.mem_append_right _ hx
  -- the number of trades still to be taken goes down
  have hlong (k : Nat) (hk : i ≤ k) : ∃ m, k ≤ m ∧
      (arrived waiting id (incidents s e i)).length ≤ (taken id (incidents s e m)).length := by
    induction hn : (arrived waiting id (incidents s e i)).length -
        (taken id (incidents s e k)).length using Nat.strongRecOn generalizing k with
    | _ n ih =>
      by_cases hdone :
          (arrived waiting id (incidents s e i)).length ≤ (taken id (incidents s e k)).length
      · exact ⟨k, Nat.le_refl k, hdone⟩
      · have hne : pending waiting id (s k) ≠ [] := by
          intro hnil
          have hprefix : arrived waiting id (incidents s e i) <+: _ := arrived_mono hk
          have hle := hprefix.length_le
          rw [hall k, hnil, List.append_nil] at hle
          exact hdone hle
        obtain ⟨j, hj⟩ : ∃ j, (s k).world.job? id = some j := by
          by_contra hno
          refine hne ?_
          rw [pending, Option.eq_none_iff_forall_ne_some.2 fun j hj => hno ⟨j, hj⟩]
          rfl
        obtain ⟨m, hm, hmore⟩ := takes_finally hend hq (fun k => sound_of_history (hhist k))
          (fun k => (flow_of_history hq (hhist k) (hflow k) id).apart) hflow' hgoing hanswered hjust
          hj hne
        obtain ⟨l, hl, hlen⟩ := ih _ (by omega) m (by omega) rfl
        exact ⟨l, by omega, hlen⟩
  obtain ⟨k, hk, hlen⟩ := hlong i (Nat.le_refl i)
  refine ⟨k, hk, List.prefix_of_prefix_length_le (arrived_mono hk) ?_ hlen⟩
  rw [hall k]
  exact List.prefix_append _ _

end

end

/-- The trades of a new collector, whatever happens to it:

* the batches of each loop are the ticks of the trades that it took, in their order, a few trades at
  a time; no call passes on an empty batch, and nothing else is received or passed on;
* where streams are queues, a loop takes what arrives in its order: only a stop leaves something of
  it, at the end;
* a loop that is treated justly takes all that arrives in the end. -/
theorem trades_batched {σ ι ρ τ : Type} (V : Venue ι ρ τ) (S : Surroundings σ ι ρ τ)
    (config : Config ι) (a : σ) (start : Nat) :
    (∀ h t, History (happens V S) ⟨start, .new config (a, [])⟩ h t →
      (∀ id, Batched V S config id h) ∧
      t.world.around.2 = h.flatMap callsAt ∧
      (∀ x ∈ h, (callsAt x).filterMap Call.trade? = [] ∨
        ∃ id, (callsAt x).filterMap Call.trade? = takenAt id x) ∧
      (∀ c ∈ t.world.around.2, ∀ batch, c.batch? = some batch →
        batch ≠ [] ∧ ∃ id, batch ∈ batches V id h) ∧
      ∀ waiting, Queued S waiting → Flowing waiting h → ∀ id, Arrives V S waiting config id h t) ∧
    ∀ waiting, Queued S waiting → ∀ t e id, t 0 = ⟨start, .new config (a, [])⟩ →
      Endless (happens V S) t e → (∀ k, Flowing waiting (incidents t e k)) →
      (∀ k, (t k).world.stopped = false) → Answered V S t id →
      Just (happens V S) t e (.move (.goOn id)) → ∀ i, ∃ k, i ≤ k ∧
        arrived waiting id (incidents t e i) <+: taken id (incidents t e k) := by
  refine ⟨fun h t hist => ?_, ?_⟩
  · obtain ⟨hlog, hreceived, hpassed⟩ := calls_of_history hist
    exact ⟨batched_of_history hist, hlog, hreceived, hpassed,
      fun waiting hq hflow id => arrives_of_history hq hist hflow id⟩
  · intro waiting hq t e id hstart hend hflow hgoing hanswered hjust i
    exact taken_finally hend hstart hq hflow hgoing hanswered hjust i

end World

/-! ## Scripts -/

/-- What waits on the streams of a script. -/
def Script.waiting {ρ τ : Type} (s : Script ρ τ) (stream : Nat) : Option (List τ) :=
  if stream < s.nextId then (s.streams.find? (·.id = stream)).map fun t => t.queue.items else none

section

variable {ρ τ : Type} {s s' : Script ρ τ} {stream : Nat}

theorem waiting_eq_some {trades : List τ} : s.waiting stream = some trades ↔
    stream < s.nextId ∧ ∃ t, s.streams.find? (·.id = stream) = some t ∧ t.queue.items = trades := by
  rw [Script.waiting]
  split
  · rename_i hlt
    rw [Option.map_eq_some_iff]
    exact ⟨fun h => ⟨hlt, h⟩, And.right⟩
  · rename_i hge
    refine ⟨fun h => ?_, fun h => absurd h.1 hge⟩
    cases h

theorem keeps_of_streams (hstreams : s'.streams = s.streams) (hnext : s.nextId ≤ s'.nextId) :
    Keeps Script.waiting none s s' := by
  intro n trades _ hw
  rw [waiting_eq_some] at hw ⊢
  exact ⟨Nat.lt_of_lt_of_le hw.1 hnext, hstreams ▸ hw.2⟩

theorem keeps_onStream (s : Script ρ τ) (stream : Nat) (f : Channel τ → Channel τ) :
    Keeps Script.waiting (some stream) s (s.onStream stream f) := by
  intro n trades hne hw
  rw [waiting_eq_some] at hw ⊢
  obtain ⟨hlt, t, ht, hitems⟩ := hw
  refine ⟨hlt, t, ?_, hitems⟩
  exact (find?_update_of_ne ScriptedStream.id (f := fun t => { t with queue := f t.queue })
    (fun _ h => h) fun h => hne (congrArg some h.symm)).trans ht

theorem waiting_onStream {t : ScriptedStream τ} (hlt : stream < s.nextId)
    (ht : s.streams.find? (·.id = stream) = some t) (f : Channel τ → Channel τ) :
    (s.onStream stream f).waiting stream = some (f t.queue).items :=
  waiting_eq_some.2 ⟨hlt, _, find?_update_self ScriptedStream.id
    (f := fun t => { t with queue := f t.queue }) (fun _ h => h) ht, rfl⟩

theorem script_receives {trades : List τ} (hw : s.waiting stream = some trades) :
    ∃ q : Channel τ, q.items = trades ∧
      Script.receive stream s = (q.receive.1, s.onStream stream fun _ => q.receive.2) ∧
      (s.onStream stream fun _ => q.receive.2).waiting stream = some q.receive.2.items := by
  obtain ⟨hlt, t, ht, hitems⟩ := waiting_eq_some.1 hw
  exact ⟨t.queue, hitems, by rw [Script.receive, ht], waiting_onStream hlt ht _⟩

/-- What a stream that is opened is numbered by has no stream yet. -/
theorem script_opens {ι : Type} (display : ι → String) {now : Nat} {instrument : ι}
    (h : Script.openStream display now instrument s = (.ok stream, s')) :
    s.waiting stream = none ∧ (∃ trades, s'.waiting stream = some trades) ∧
      Keeps Script.waiting none s s' := by
  simp only [Script.openStream, Script.log] at h
  split at h
  · cases h
  · cases h
    refine ⟨if_neg (Nat.lt_irrefl _), ?_, ?_⟩
    · simp only [waiting_eq_some, Nat.lt_succ_self, true_and]
      rw [List.find?_append]
      cases s.streams.find? (·.id = s.nextId) with
      | some t => exact ⟨_, t, rfl, rfl⟩
      | none =>
        rw [Option.none_or]
        exact ⟨_, _, List.find?_cons_of_pos (decide_eq_true rfl), rfl⟩
    · intro n trades _ hw
      rw [waiting_eq_some] at hw ⊢
      obtain ⟨hlt, t, ht, hitems⟩ := hw
      refine ⟨Nat.lt_succ_of_lt hlt, t, ?_, hitems⟩
      rw [List.find?_append, ht]
      rfl

theorem script_queued {ι : Type} (display : ι → String) (hasDownstream : Bool) :
    Queued (Script.surroundings display hasDownstream : Surroundings (Script ρ τ) ι ρ τ)
      Script.waiting where
  next := by
    intro stream trade rest s hw
    obtain ⟨q, hitems, hr, hafter⟩ := script_receives hw
    rw [Channel.receive, hitems] at hr hafter
    exact ⟨_, hr, hafter, keeps_onStream s stream _⟩
  nothing := by
    intro stream s hw
    obtain ⟨q, hitems, hr, hafter⟩ := script_receives hw
    rw [Channel.receive, hitems] at hr hafter
    refine ⟨_, _, hr, ?_, ?_⟩
    · cases q.ended <;> simp
    · intro n trades _ hn
      by_cases hne : n = stream
      · subst hne
        rw [hw] at hn
        rw [hafter, ← hn, hitems]
      · exact keeps_onStream s stream _ n trades (fun h => hne (Option.some.inj h).symm) hn
  opens := fun _ _ _ _ _ h => script_opens display h
  fails := by
    intro now instrument e s s' h
    simp only [Script.surroundings, Script.openStream, Script.log] at h
    split at h
    · cases h
      exact keeps_of_streams rfl (Nat.le_refl _)
    · cases h
  drops := fun stream s => keeps_onStream s stream Channel.close
  fetch := by
    rintro now instrument request s _ _ ⟨⟩
    exact keeps_of_streams rfl (Nat.le_succ _)
  fetched := by
    intro now fetch s r s' h
    simp only [Script.surroundings, Script.fetched?] at h
    split at h
    · cases h
    · split at h
      · cases h
        exact keeps_of_streams rfl (Nat.le_refl _)
      · cases h
  persistBars := by
    intro now bars s r s' h
    simp only [Script.surroundings, Script.persistBars, Script.log] at h
    split at h <;> cases h <;> exact keeps_of_streams rfl (Nat.le_refl _)
  persistTicks := by
    intro now batch s r s' h
    simp only [Script.surroundings, Script.persistTicks, Script.log] at h
    split at h <;> cases h <;> exact keeps_of_streams rfl (Nat.le_refl _)
  publish := by
    intro d hd now batch s publication s' h
    cases hasDownstream with
    | false => cases hd
    | true =>
      cases hd
      cases h
      exact keeps_of_streams rfl (Nat.le_succ _)
  published := by
    intro d hd publication s r s' h
    cases hasDownstream with
    | false => cases hd
    | true =>
      cases hd
      obtain ⟨p, hp, heq⟩ := Option.map_eq_some_iff.1 h
      cases heq
      exact keeps_of_streams rfl (Nat.le_refl _)

end

/-! ## A stream that ends, and a trade without a valid time -/

namespace Sample

/-- A trade whose time is no moment. -/
def timeless : Binance.Trade := { trade 8 price with tradeTime := 9000000000000000 }

/-- Batches of two trades. -/
def pairs : Config String := { Config.default with live := ["BTCUSDT"], tickBatchSize := 2 }

/-- The first stream has three trades and then ends, the second has the trade without a time. -/
def reopening : Script Binance.Kline Binance.Trade :=
  .new .none ⟨[("BTCUSDT", [.trades [trade 7 price, timeless, trade 9 nextPrice] true,
    .trades [timeless] false])]⟩ .none .none none

def apart : Surroundings (Script Binance.Kline Binance.Trade) String Binance.Kline Binance.Trade :=
  Script.surroundings id false

def newPairs : Timed (World.Watched (Script Binance.Kline Binance.Trade) String Binance.Trade) :=
  ⟨0, .new pairs (reopening, [])⟩

/-- The loop takes all of the first stream, waits until it opens the second, and takes that. -/
def bothStreams : List (World.Event (Script Binance.Kline Binance.Trade) String) :=
  .start :: List.replicate 8 (.move (.goOn 1)) ++ .wait 5000000000 ::
    List.replicate 3 (.move (.goOn 1))

/-- The numbers of the trades that arrived and of the groups that were taken, the prices in the
batches, and the calls by which they were passed on. -/
structure Taken where
  arrived : List UInt64
  groups : List (List UInt64)
  batches : List (List Decimal)
  calls : List (List Decimal × Option Bool)
  deriving DecidableEq

def takenIn (h : List (Incident (Timed (World.Watched (Script Binance.Kline Binance.Trade) String
    Binance.Trade)) (World.Event (Script Binance.Kline Binance.Trade) String))) : Taken :=
  ⟨(World.arrived Script.waiting 1 h).map Binance.Trade.id,
    (World.groups 1 h).map (·.map Binance.Trade.id),
    (World.batches binance 1 h).map (·.map Tick.price), (World.ingests 1 h).map told⟩

/-- What comes of both streams, and what has come of them when the first was opened. -/
theorem replay_bothStreams :
    (History.replay (World.happens binance apart) bothStreams newPairs).map (fun r =>
      (takenIn r.1, takenIn (r.1.take 2),
        (World.happens binance apart (.move (.goOn 1)) r.2).isNone)) =
      some (⟨[7, 8, 9, 8], [[7, 8], [9], [8]], [[price], [nextPrice], []],
        [([price], some true), ([nextPrice], some true)]⟩, ⟨[7, 8, 9], [], [], []⟩, true) := by
  decide +kernel

theorem bothStreams_quiet : ∀ e ∈ bothStreams, (∀ s, e ≠ .around s) ∧ e ≠ .stop := by
  simp [bothStreams]

end Sample

/-- The trades of both streams are taken, two at once where two wait; nothing comes of the one
without a time, and a batch of it alone is not written. -/
theorem trades_batched_reopened : ∃ h t, History (World.happens binance Sample.apart)
      Sample.newPairs h t ∧ World.Batched binance Sample.apart Sample.pairs 1 h ∧
      World.Arrives binance Sample.apart Script.waiting Sample.pairs 1 h t ∧
      Sample.takenIn h = ⟨[7, 8, 9, 8], [[7, 8], [9], [8]],
        [[Sample.price], [Sample.nextPrice], []],
        [([Sample.price], some true), ([Sample.nextPrice], some true)]⟩ ∧
      ∃ s e k, Endless (World.happens binance Sample.apart) s e ∧ s 0 = Sample.newPairs ∧ 2 ≤ k ∧
        Sample.takenIn (incidents s e 2) = ⟨[7, 8, 9], [], [], []⟩ ∧
        World.arrived Script.waiting 1 (incidents s e 2) <+: World.taken 1 (incidents s e k) := by
  obtain ⟨hall, hfair⟩ :=
    World.trades_batched binance Sample.apart Sample.pairs Sample.reopening 0
  obtain ⟨⟨h, t⟩, hr, heq⟩ := Option.map_eq_some_iff.1 Sample.replay_bothStreams
  simp only [Prod.mk.injEq] at heq
  obtain ⟨hseen, hfirst, hwaits⟩ := heq
  have hist := History.of_replay hr
  obtain ⟨hbatched, -, -, -, harrives⟩ := hall h t hist
  have hrest : Endless (World.happens binance Sample.apart) (fun _ => t)
      (fun _ => .wait t.now) := ⟨fun _ => if_pos (Nat.le_refl t.now)⟩
  obtain ⟨s, e, hend, hstart, hinc, hlate, hearly⟩ := hrest.of_replay hr rfl
  have hquiet (i : Nat) : (∀ a, e i ≠ .around a) ∧ e i ≠ .stop := by
    by_cases hi : i < Sample.bothStreams.length
    · rw [hearly i hi]
      exact Sample.bothStreams_quiet _ (List.getElem_mem hi)
    · obtain ⟨k, rfl⟩ := Nat.exists_eq_add_of_le' (Nat.le_of_not_lt hi)
      rw [(hlate k).2]
      exact ⟨by simp, by simp⟩
  have hflow (k : Nat) : World.Flowing Script.waiting (incidents s e k) := by
    intro x hx a ha
    obtain ⟨i, -, rfl⟩ := List.mem_map.1 hx
    exact absurd ha ((hquiet i).1 a)
  have hgoing (k : Nat) : (s k).world.stopped = false := by
    induction k with
    | zero => rw [hstart]; rfl
    | succ k ih =>
      exact World.going_of_happens (World.sound_of_history (hstart ▸ hend.history k))
        (hend.goes k) (hquiet k).2 ih
  have hjust : Just (World.happens binance Sample.apart) s e (.move (.goOn 1)) := by
    intro i
    refine ⟨i + Sample.bothStreams.length, Nat.le_add_right _ _, .inr ?_⟩
    rw [(hlate i).1]
    exact Option.isNone_iff_eq_none.1 hwaits
  have hqueued : Queued Sample.apart Script.waiting := script_queued id false
  obtain ⟨k, hk, htaken⟩ := hfair _ hqueued s e 1 hstart hend hflow hgoing
    (World.answered_of_none rfl s 1) hjust 2
  refine ⟨h, t, hist, hbatched 1, harrives _ hqueued ?_ 1, hseen, s, e, k, hend, hstart, hk, ?_,
    htaken⟩
  · rw [← hinc]
    exact hflow _
  · have htwo : incidents s e 2 = h.take 2 := by
      rw [← hinc, incidents, incidents, ← List.map_take, List.take_range]
      rfl
    rw [htwo]
    exact hfirst

end Collector
end MarketFeed
