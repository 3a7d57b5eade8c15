import MarketFeed.Proofs.Collector.Ingest

/-!
# MarketFeed.Proofs.Collector.Taking

The trades that a streaming loop takes, and the batches that it makes of them.

* `taken`, `groups` — the trades that a loop took, in order, and those that it took together.
* `gather_length`, `Takes`, `takes_of_happens` — how a loop takes trades: a first one and those that
  wait behind it, up to the size of a batch, all of one stream.
* `Serves`, `batches_of_history` — a loop streams one instrument only, and its batches are the ticks
  of its groups.
-/

namespace MarketFeed
namespace Collector

theorem Surroundings.gather_length {σ ι ρ τ : Type} (S : Surroundings σ ι ρ τ) (stream n : Nat)
    (s : σ) : (S.gather stream n s).1.length ≤ n := by
  induction n generalizing s with
  | zero => exact Nat.le_refl 0
  | succ n ih =>
    rw [gather_succ]
    dsimp only
    cases (S.receive stream s).1 with
    | item t => exact Nat.succ_le_succ (ih _)
    | empty => exact Nat.zero_le _
    | ended => exact Nat.zero_le _

namespace World

/-! ## What a loop takes -/

section

variable {σ ι ρ τ : Type}

/-- The trades that a job takes in an incident. -/
def takenAt (id : Nat) (x : Incident (Timed (Watched σ ι τ)) (Event σ ι)) : List τ :=
  match x.event with
  | .move (.goOn i) => if i = id then (callsAt x).filterMap Call.trade? else []
  | _ => []

def taken (id : Nat) (h : List (Incident (Timed (Watched σ ι τ)) (Event σ ι))) : List τ :=
  h.flatMap (takenAt id)

/-- The trades that a job took, those of one incident together. -/
def groups (id : Nat) (h : List (Incident (Timed (Watched σ ι τ)) (Event σ ι))) :
    List (List τ) :=
  (h.map (takenAt id)).filter fun l => !l.isEmpty

/-- The instrument of a streaming loop. -/
def instrument? : Work ι → Option ι
  | .stream instrument _ => some instrument
  | _ => none

/-- Wherever the job of a number is a streaming loop, it is for this instrument; none if it is no
streaming loop. -/
def Serves (id : Nat) (h : List (Incident (Timed (Watched σ ι τ)) (Event σ ι)))
    (instrument : Option ι) : Prop :=
  ∀ x ∈ h, ∀ j i, x.before.world.job? id = some j → instrument? j.work = some i →
    instrument = some i

/-- How a streaming loop takes trades: a first one, and those that wait behind it. -/
structure Takes (V : Venue ι ρ τ) (S : Surroundings σ ι ρ τ) (id : Nat)
    (t : Timed (Watched σ ι τ)) (e : Event σ ι) (t' : Timed (Watched σ ι τ)) (j : Job ι)
    (instrument : ι) (stream : Nat) (group : List τ) : Prop where
  event : e = .move (.goOn id)
  job : t.world.job? id = some j
  work : j.work = .stream instrument (.receiving stream)
  calls : callsAt ⟨t, e, t'⟩ = group.map (.receive stream)
  received : ∃ first rest s, group = first :: rest ∧
    S.receive stream t.world.around.1 = (.item first, s) ∧
    S.gather stream (t.world.batchSize - 1) s = (rest, t'.world.around.1)
  after : t'.world.job? id = some { j with
    work := .stream instrument
      (if (V.ticks instrument group).isEmpty then .receiving stream
        else .storing stream (V.ticks instrument group) false) }

variable {V : Venue ι ρ τ} {S : Surroundings σ ι ρ τ} {id : Nat} {t t' : Timed (Watched σ ι τ)}
  {e : Event σ ι} {h : List (Incident (Timed (Watched σ ι τ)) (Event σ ι))}

theorem taken_concat (h : List (Incident (Timed (Watched σ ι τ)) (Event σ ι)))
    (x : Incident (Timed (Watched σ ι τ)) (Event σ ι)) :
    taken id (h ++ [x]) = taken id h ++ takenAt id x :=
  flatMap_concat h x _

theorem groups_concat (h : List (Incident (Timed (Watched σ ι τ)) (Event σ ι)))
    (x : Incident (Timed (Watched σ ι τ)) (Event σ ι)) :
    groups id (h ++ [x]) =
      groups id h ++ if (takenAt id x).isEmpty then [] else [takenAt id x] := by
  rw [groups, List.map_append, List.filter_append]
  congr 1
  cases hx : takenAt id x <;> simp [hx]

theorem flatten_groups : (groups id h).flatten = taken id h :=
  List.flatten_filter_not_isEmpty

theorem ne_nil_of_mem_groups {group : List τ} (hg : group ∈ groups id h) : group ≠ [] := by
  simpa using (List.mem_filter.1 hg).2

theorem mem_groups {group : List τ} (hg : group ∈ groups id h) :
    ∃ x ∈ h, takenAt id x = group := by
  simpa using (List.mem_filter.1 hg).1

theorem takenAt_of_ne {x : Incident (Timed (Watched σ ι τ)) (Event σ ι)}
    (he : x.event ≠ .move (.goOn id)) : takenAt id x = [] := by
  unfold takenAt
  split
  · rename_i i hi
    refine if_neg ?_
    rintro rfl
    exact he hi
  · rfl

/-! ## Who takes trades, and how -/

theorem PassGoes.trades {now : Nat} {s s' : σ} {instrument : ι} {interval : Interval}
    {stage stage' : PassStage} {calls : List (Call ι τ)}
    (h : PassGoes V S now s instrument interval stage calls s' stage') :
    calls.filterMap Call.trade? = [] := by
  cases h <;> rfl

/-- Only streaming loops take trades. -/
theorem WorkGoes.trades {now : Nat} {w : Watched σ ι τ} {work work' : Work ι}
    {calls : List (Call ι τ)} {s : σ} (h : WorkGoes V S now w work calls s work')
    (hno : instrument? work = none) : calls.filterMap Call.trade? = [] := by
  cases h with
  | pass h => exact h.trades
  | poll h =>
    cases h with
    | passes h => exact h.trades
    | _ => rfl
  | stream h => cases hno

theorem Halts.trades {s s' : σ} {work : Work ι} {calls : List (Call ι τ)}
    (h : Halts S s work calls s') : calls.filterMap Call.trade? = [] := by
  cases h <;> rfl

/-- A loop takes no trades in an incident, or it takes them in the one way there is. -/
theorem takes_of_happens (id : Nat) (hsound : Sound t.world) (he : happens V S e t = some t') :
    takenAt id ⟨t, e, t'⟩ = [] ∨
      ∃ j instrument stream, Takes V S id t e t' j instrument stream (takenAt id ⟨t, e, t'⟩) := by
  cases fares_of_happens hsound he id with
  | @goes j calls s work he' hj hg ht hj' =>
    subst he'
    have hcalls : callsAt (⟨t, .move (.goOn id), t'⟩ : Incident _ (Event σ ι)) = calls :=
      callsAt_of_log (by rw [ht]; rfl)
    have htaken : takenAt id ⟨t, .move (.goOn id), t'⟩ = calls.filterMap Call.trade? := by
      simp only [takenAt, if_true, hcalls]
    have haround : t'.world.around.1 = s := by rw [ht]; rfl
    rw [htaken]
    cases hw : j.work with
    | stream instrument stage =>
      rw [hw] at hg
      cases hg with
      | stream hg =>
        -- the other ways to go on make no calls that give a trade
        cases hg with
        | @passesOver stream first rest s₁ _ hr hgather hnone =>
          refine .inr ⟨j, instrument, stream, rfl, hj, hw, ?_, ?_, ?_⟩
          · rw [trades_of_receives, hcalls]
          · exact ⟨first, rest, s₁, trades_of_receives _ _, hr, haround ▸ hgather⟩
          · rw [trades_of_receives, hnone]
            exact hj'
        | @takes stream first rest s₁ _ hr hgather hsome =>
          refine .inr ⟨j, instrument, stream, rfl, hj, hw, ?_, ?_, ?_⟩
          · rw [trades_of_receives, hcalls]
          · exact ⟨first, rest, s₁, trades_of_receives _ _, hr, haround ▸ hgather⟩
          · rw [trades_of_receives, if_neg (by simpa using hsome)]
            exact hj'
        | _ => exact .inl rfl
    | _ => exact .inl (hg.trades (by rw [hw]; rfl))
  | halts he' => exact .inl (takenAt_of_ne (by simp [he']))
  | begins he' => exact .inl (takenAt_of_ne (by rcases he' with rfl | ⟨_, _, rfl⟩ <;> simp))
  | leaves he' => exact .inl (takenAt_of_ne (by rcases he' with rfl | ⟨_, rfl⟩ <;> simp))
  | stays he' => exact .inl (takenAt_of_ne he')

theorem batchSize_pos (w : Watched σ ι τ) : 0 < w.batchSize :=
  Nat.lt_of_lt_of_le Nat.zero_lt_one (Nat.le_max_right _ _)

theorem Takes.length_le {j : Job ι} {instrument : ι} {stream : Nat} {group : List τ}
    (h : Takes V S id t e t' j instrument stream group) : group.length ≤ t.world.batchSize := by
  obtain ⟨first, rest, s, rfl, -, hg⟩ := h.received
  have hrest := S.gather_length stream (t.world.batchSize - 1) s
  have hpos := batchSize_pos t.world
  rw [hg] at hrest
  rw [List.length_cons]
  have hlast : rest.length ≤ t.world.batchSize - 1 := hrest
  omega

/-! ## One instrument -/

theorem WorkGoes.instrument {now : Nat} {w : Watched σ ι τ} {work work' : Work ι}
    {calls : List (Call ι τ)} {s : σ} (h : WorkGoes V S now w work calls s work') :
    instrument? work' = instrument? work ∨ instrument? work' = none := by
  cases h with
  | pass h => exact .inl rfl
  | poll h => cases h <;> exact .inr rfl
  | stream h =>
    cases h with
    | stops _ => exact .inr rfl
    | _ => exact .inl rfl

/-- Numbers are not given twice. -/
theorem nextId_of_happens (hsound : Sound t.world) (he : happens V S e t = some t') :
    t.world.nextId ≤ t'.world.nextId ∧ ∀ id j, t.world.job? id = none →
      t'.world.job? id = some j → t.world.nextId ≤ id := by
  have hadd (w w' : Watched σ ι τ) (run : Option Nat) (work : Work ι)
      (h : w.nextId ≤ w'.nextId ∧ ∀ id j, w.job? id = none → w'.job? id = some j → w.nextId ≤ id) :
      w.nextId ≤ (w'.addJob run work).nextId ∧ ∀ id j, w.job? id = none →
        (w'.addJob run work).job? id = some j → w.nextId ≤ id := by
    refine ⟨Nat.le_succ_of_le h.1, fun id j hnone hj => ?_⟩
    rw [job?_addJob] at hj
    cases hold : w'.job? id with
    | some i => exact h.2 id i hnone hold
    | none =>
      rw [hold, Option.none_or] at hj
      split at hj
      · rename_i hid
        exact hid ▸ h.1
      · cases hj
  have hsame {w' : Watched σ ι τ} (hnext : w'.nextId = t.world.nextId)
      (hjobs : ∀ id, t.world.job? id = none → w'.job? id = none) :
      t.world.nextId ≤ w'.nextId ∧ ∀ id j, t.world.job? id = none →
        w'.job? id = some j → t.world.nextId ≤ id := by
    refine ⟨Nat.le_of_eq hnext.symm, fun id j hnone hj => ?_⟩
    rw [hjobs id hnone] at hj
    cases hj
  have hset (s : σ) (calls : List (Call ι τ)) (i : Nat) (work : Work ι) (id : Nat)
      (hnone : t.world.job? id = none) :
      ((t.world.called s calls).setWork i work).job? id = none := by
    have hupdate : ((t.world.called s calls).setWork i work).job? id =
        (t.world.job? id).map fun j => if j.id = i then { j with work } else j :=
      find?_update Job.id (f := fun j => { j with work }) (fun _ h => h) id
    rw [hupdate, hnone]
    rfl
  have hfilter (p : Job ι → Bool) (id : Nat) (hnone : t.world.job? id = none) :
      (t.world.jobs.filter p).find? (fun j => j.id = id) = none :=
    List.find?_eq_none.2 fun j hj =>
      List.find?_eq_none.1 hnone j (List.mem_filter.1 hj).1
  cases occurs_of_happens hsound he with
  | goes hj hg => exact hsame rfl (hset _ _ _ _)
  | halts hj hstopped hh => exact hsame rfl (hset _ _ _ _)
  | finishes hover => exact hsame rfl (hfilter _)
  | forgets hj hpass => exact hsame rfl (hfilter _)
  | starts =>
    refine start_keeps (P := fun w' => t.world.nextId ≤ w'.nextId ∧ ∀ id j,
      t.world.job? id = none → w'.job? id = some j → t.world.nextId ≤ id) ?_ ?_ ?_
    · exact fun w' h => ⟨Nat.le_succ_of_le h.1, h.2⟩
    · exact fun w' run work _ h => hadd t.world w' run work h
    · exact hsame rfl fun _ hnone => hnone
  | fetches hf =>
    exact hadd t.world (t.world.called _ _) none _ (hsame rfl fun _ hnone => hnone)
  | _ => exact hsame rfl fun _ hnone => hnone

/-- What is known of the instrument of a job after a history. -/
structure Serving (id : Nat) (h : List (Incident (Timed (Watched σ ι τ)) (Event σ ι)))
    (t : Timed (Watched σ ι τ)) (instrument : Option ι) : Prop where
  serves : Serves id h instrument
  now : ∀ j i, t.world.job? id = some j → instrument? j.work = some i → instrument = some i
  /-- A job that did not begin yet is for no instrument. -/
  unborn : t.world.nextId ≤ id → instrument = none ∧ t.world.job? id = none

theorem Serving.next {instrument : Option ι} (h' : Serving id h t instrument)
    (hsound : Sound t.world) (he : happens V S e t = some t') :
    ∃ instrument', Serving id (h ++ [⟨t, e, t'⟩]) t' instrument' := by
  obtain ⟨hnext, hborn⟩ := nextId_of_happens hsound he
  have hserves : Serves id (h ++ [⟨t, e, t'⟩]) instrument := by
    intro x hx
    rcases List.mem_append.1 hx with hx | hx
    · exact h'.serves x hx
    · obtain rfl := List.mem_singleton.1 hx
      exact h'.now
  have hunborn : t'.world.nextId ≤ id → instrument = none ∧ t'.world.job? id = none := by
    intro hid
    refine ⟨(h'.unborn (Nat.le_trans hnext hid)).1, ?_⟩
    cases hj : t'.world.job? id with
    | none => rfl
    | some j =>
      have hlt := (hsound.next he).numbered j (mem_of_job? hj)
      rw [id_of_job? hj] at hlt
      omega
  have hkeep (hnow : ∀ j' i, t'.world.job? id = some j' → instrument? j'.work = some i →
      instrument = some i) : ∃ instrument', Serving id (h ++ [⟨t, e, t'⟩]) t' instrument' :=
    ⟨instrument, hserves, hnow, hunborn⟩
  cases fares_of_happens hsound he id with
  | @goes j calls s work he' hj hg ht hj' =>
    refine hkeep fun j' i hi hwork => ?_
    cases hj'.symm.trans hi
    rcases hg.instrument with hsame | hnone
    · exact h'.now j i hj (hsame ▸ hwork)
    · rw [hnone] at hwork
      cases hwork
  | @halts j calls s he' hj hstopped hh ht hj' =>
    refine hkeep fun j' i hi hwork => ?_
    cases hj'.symm.trans hi
    cases hwork
  | @begins j he' hj hj' hfresh =>
    -- a job that begins now was not there before, so it is free to be for any instrument
    obtain ⟨rfl, -⟩ := h'.unborn (hborn id j hj hj')
    refine ⟨instrument? j.work, ?_, ?_, ?_⟩
    · intro x hx i' i hi hwork
      cases hserves x hx i' i hi hwork
    · intro j' i hi hwork
      cases hj'.symm.trans hi
      exact hwork
    · intro hid
      have hnone := (hunborn hid).2
      rw [hj'] at hnone
      cases hnone
  | leaves he' hj hover hj' =>
    refine hkeep fun j' i hi hwork => ?_
    rw [hj'] at hi
    cases hi
  | stays he' hj' => exact hkeep fun j' i hi hwork => h'.now j' i (hj' ▸ hi) hwork

/-! ## Batches -/

/-- The batch of an incident is made of the trades taken in it. -/
theorem batchAt?_eq {instrument : Option ι} (hserves : Serves id [⟨t, e, t'⟩] instrument)
    (hsound : Sound t.world) (he : happens V S e t = some t') :
    (batchAt? V id ⟨t, e, t'⟩).toList =
      (if (takenAt id ⟨t, e, t'⟩).isEmpty then [] else [takenAt id ⟨t, e, t'⟩]).flatMap
        fun group => instrument.toList.map fun i => V.ticks i group := by
  rcases takes_of_happens id hsound he with hnone | ⟨j, i, stream, htakes⟩
  · rw [hnone]
    have hmade : batchAt? V id ⟨t, e, t'⟩ = none := by
      unfold takenAt at hnone
      unfold batchAt?
      split
      · rename_i k hk
        simp only at hk
        split
        · rename_i hid
          simp only [hk, hid, if_true] at hnone
          cases t.world.job? id with
          | none => rfl
          | some j => exact made_of_no_trade (by simpa [hk, hid] using hnone)
        · rfl
      · rfl
    rw [hmade]
    rfl
  · have hne : takenAt id ⟨t, e, t'⟩ ≠ [] := by
      obtain ⟨first, rest, s, hgroup, -⟩ := htakes.received
      rw [hgroup]
      exact List.cons_ne_nil _ _
    have hi : instrument = some i := by
      refine hserves _ (List.mem_singleton_self _) j i htakes.job ?_
      rw [htakes.work]
      rfl
    rw [if_neg (by simpa using hne), hi]
    obtain rfl := htakes.event
    obtain ⟨first, rest, s, hgroup, -⟩ := htakes.received
    have hcalls := htakes.calls
    simp only [batchAt?, if_true, htakes.job, Option.bind_some, htakes.work, made, hcalls,
      trades_of_receives]
    rw [hgroup]
    rfl

end

/-! ## Whole histories -/

section

variable {σ ι ρ τ : Type} {V : Venue ι ρ τ} {S : Surroundings σ ι ρ τ} {config : Config ι} {a : σ}
  {start id : Nat} {h : List (Incident (Timed (Watched σ ι τ)) (Event σ ι))}
  {t : Timed (Watched σ ι τ)}

theorem config_of_history
    (hist : History (happens V S) ⟨start, .new config (a, [])⟩ h t) :
    t.world.config = config ∧ ∀ x ∈ h, x.before.world.config = config := by
  induction hist with
  | nil => exact ⟨rfl, fun x hx => absurd hx List.not_mem_nil⟩
  | @snoc h t t' e hist he ih =>
    have hsame : t'.world.config = t.world.config := by
      cases occurs_of_happens (sound_of_history hist) he with
      | starts =>
        have hkeep := start_keeps (P := fun w' => w'.config = t.world.config)
          (fun _ h => h) (fun _ _ _ _ h => h) (rfl : t.world.config = t.world.config)
        exact hkeep
      | _ => rfl
    refine ⟨hsame.trans ih.1, ?_⟩
    intro x hx
    rcases List.mem_append.1 hx with hx | hx
    · exact ih.2 x hx
    · obtain rfl := List.mem_singleton.1 hx
      exact ih.1

theorem serving_of_history
    (hist : History (happens V S) ⟨start, .new config (a, [])⟩ h t) (id : Nat) :
    ∃ instrument, Serving id h t instrument := by
  induction hist with
  | nil =>
    refine ⟨none, fun x hx => absurd hx List.not_mem_nil, ?_, fun _ => ⟨rfl, rfl⟩⟩
    rintro j i ⟨⟩
  | snoc hist he ih =>
    obtain ⟨instrument, hserving⟩ := ih
    exact hserving.next (sound_of_history hist) he

/-- The batches of a loop are the ticks of the groups of trades that it took. -/
theorem batches_of_history
    (hist : History (happens V S) ⟨start, .new config (a, [])⟩ h t) {instrument : Option ι}
    (hserves : Serves id h instrument) :
    batches V id h =
      (groups id h).flatMap fun group => instrument.toList.map (V.ticks · group) := by
  induction hist with
  | nil => rfl
  | @snoc h t t' e hist he ih =>
    rw [batches_concat, groups_concat, List.flatMap_append,
      ih fun x hx => hserves x (List.mem_append_left _ hx)]
    congr 1
    exact batchAt?_eq (fun x hx => hserves x (List.mem_append_right _ hx))
      (sound_of_history hist) he

/-- How a loop took a group of trades. -/
theorem takes_of_history (id : Nat)
    (hist : History (happens V S) ⟨start, .new config (a, [])⟩ h t) :
    ∀ x ∈ h, takenAt id x = [] ∨ Sound x.before.world ∧ ∃ j instrument stream,
      Takes V S id x.before x.event x.after j instrument stream (takenAt id x) := by
  induction hist with
  | nil => exact fun x hx => absurd hx List.not_mem_nil
  | @snoc h t t' e hist he ih =>
    intro x hx
    rcases List.mem_append.1 hx with hx | hx
    · exact ih x hx
    · obtain rfl := List.mem_singleton.1 hx
      have hsound := sound_of_history hist
      exact (takes_of_happens id hsound he).imp (fun hnone => hnone) fun htakes => ⟨hsound, htakes⟩

end

end World
end Collector
end MarketFeed
