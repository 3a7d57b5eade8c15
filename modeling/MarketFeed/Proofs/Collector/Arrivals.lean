import MarketFeed.Proofs.Collector.Taking

/-!
# MarketFeed.Proofs.Collector.Arrivals

The trades that arrive for a streaming loop, where streams are queues.

* `Queued` — what waits on a stream is received in its order, and nothing else takes it away.
* `Queued.gather`, `WorkGoes.spares`, `WorkGoes.conserves` — what a loop that goes on takes off the
  queues: the front of its own.
* `Apart` — no two loops have the same stream.
* `arrived`, `pending`, `Arrives` — what arrived is what was taken and what waits, unless the loop
  was stopped; then it is the front of what arrived that was taken.
-/

namespace MarketFeed
namespace Collector

/-! ## Streams as queues -/

section

variable {σ ι ρ τ : Type}

/-- What waits on the streams that there are stays, but perhaps for one of them. -/
def Keeps (waiting : σ → Nat → Option (List τ)) (left : Option Nat) (s s' : σ) : Prop :=
  ∀ stream trades, left ≠ some stream → waiting s stream = some trades →
    waiting s' stream = some trades

/-- Surroundings whose streams are queues: which there are, and what waits on them, oldest first. -/
structure Queued (S : Surroundings σ ι ρ τ) (waiting : σ → Nat → Option (List τ)) : Prop where
  next : ∀ stream trade rest s, waiting s stream = some (trade :: rest) → ∃ s',
    S.receive stream s = (.item trade, s') ∧ waiting s' stream = some rest ∧
      Keeps waiting (some stream) s s'
  nothing : ∀ stream s, waiting s stream = some [] → ∃ r s', S.receive stream s = (r, s') ∧
    (∀ trade, r ≠ .item trade) ∧ Keeps waiting none s s'
  /-- A stream that is opened is a new one. -/
  opens : ∀ now instrument stream s s', S.openStream now instrument s = (.ok stream, s') →
    waiting s stream = none ∧ (∃ trades, waiting s' stream = some trades) ∧ Keeps waiting none s s'
  fails : ∀ now instrument e s s', S.openStream now instrument s = (.error e, s') →
    Keeps waiting none s s'
  drops : ∀ stream s, Keeps waiting (some stream) s (S.dropStream stream s)
  fetch : ∀ now instrument request s fetch s', S.fetch now instrument request s = (fetch, s') →
    Keeps waiting none s s'
  fetched : ∀ now fetch s r s', S.fetched? now fetch s = some (r, s') → Keeps waiting none s s'
  persistBars : ∀ now bars s r s', S.persistBars now bars s = (r, s') → Keeps waiting none s s'
  persistTicks : ∀ now batch s r s', S.persistTicks now batch s = (r, s') → Keeps waiting none s s'
  publish : ∀ d, S.downstream = some d → ∀ now batch s publication s',
    d.publish now batch s = (publication, s') → Keeps waiting none s s'
  published : ∀ d, S.downstream = some d → ∀ publication s r s',
    d.published? publication s = some (r, s') → Keeps waiting none s s'

variable {S : Surroundings σ ι ρ τ} {waiting : σ → Nat → Option (List τ)} {left : Option Nat}
  {s s' s'' : σ} {stream : Nat} {trades : List τ}

namespace Keeps

theorem refl (s : σ) : Keeps waiting left s s := fun _ _ _ h => h

theorem trans (h : Keeps waiting left s s') (h' : Keeps waiting left s' s'') :
    Keeps waiting left s s'' := fun stream trades hne hw => h' stream trades hne (h _ _ hne hw)

theorem leave (h : Keeps waiting none s s') : Keeps waiting left s s' :=
  fun stream trades _ hw => h stream trades (by simp) hw

end Keeps

/-- The front of the queue is taken, as far as it is asked for. -/
theorem Queued.gather (h : Queued S waiting) (n : Nat) (hw : waiting s stream = some trades) :
    ∃ s', S.gather stream n s = (trades.take n, s') ∧ waiting s' stream = some (trades.drop n) ∧
      Keeps waiting (some stream) s s' := by
  induction n generalizing s trades with
  | zero => exact ⟨s, rfl, hw, .refl s⟩
  | succ n ih =>
    rw [Surroundings.gather_succ]
    cases trades with
    | nil =>
      obtain ⟨r, s₁, hr, hno, hkeeps⟩ := h.nothing stream s hw
      refine ⟨s₁, ?_, hkeeps stream [] (by simp) hw, hkeeps.leave⟩
      rw [hr]
      cases r with
      | item trade => exact absurd rfl (hno trade)
      | empty => rfl
      | ended => rfl
    | cons trade rest =>
      obtain ⟨s₁, hr, hrest, hkeeps⟩ := h.next stream trade rest s hw
      obtain ⟨s₂, hg, hdrop, hkeeps'⟩ := ih hrest
      refine ⟨s₂, ?_, hdrop, hkeeps.trans hkeeps'⟩
      rw [hr]
      dsimp only
      rw [hg]
      rfl

end

namespace World

/-! ## The stream of a loop -/

section

variable {σ ι ρ τ : Type}

/-- The stream that a loop has. -/
def stream? : Work ι → Option Nat
  | .stream _ (.receiving stream) => some stream
  | .stream _ (.storing stream _ _) => some stream
  | .stream _ (.forwarding stream _) => some stream
  | .stream _ (.publishing stream _) => some stream
  | _ => none

/-- What waits on the stream that a loop has. -/
def queue (waiting : σ → Nat → Option (List τ)) (s : σ) (work : Work ι) : List τ :=
  ((stream? work).bind (waiting s)).getD []

variable {V : Venue ι ρ τ} {S : Surroundings σ ι ρ τ} {waiting : σ → Nat → Option (List τ)}
  {now : Nat} {w : Watched σ ι τ} {work work' : Work ι} {calls : List (Call ι τ)} {s : σ}

theorem queue_of_stream {stream : Nat} {trades : List τ} (hw : stream? work = some stream)
    (hq : waiting s stream = some trades) : queue waiting s work = trades := by
  rw [queue, hw, Option.bind_some, hq, Option.getD_some]

theorem queue_of_no_stream (hw : stream? work = none) : queue waiting s work = [] := by
  rw [queue, hw]
  rfl

theorem PassGoes.spares {s s' : σ} {instrument : ι} {interval : Interval}
    {stage stage' : PassStage} (hq : Queued S waiting)
    (h : PassGoes V S now s instrument interval stage calls s' stage') :
    Keeps waiting none s s' := by
  cases h with
  | fetches h => exact hq.fetched _ _ _ _ _ h
  | fails h => exact hq.fetched _ _ _ _ _ h
  | skips => exact .refl s
  | stores _ h => exact hq.persistBars _ _ _ _ _ h

theorem PollGoes.spares {instrument : ι} {interval : Interval} {stage : PollStage}
    (hq : Queued S waiting) (h : PollGoes V S now w instrument interval stage calls s work) :
    Keeps waiting none w.around.1 s := by
  cases h with
  | asks _ h => exact hq.fetch _ _ _ _ _ _ h
  | passes h => exact h.spares hq
  | _ => exact .refl _

theorem Halts.spares {s' : σ} (hq : Queued S waiting) (h : Halts S s work calls s') :
    Keeps waiting (stream? work) s s' := by
  cases h with
  | receive => exact hq.drops _ s
  | _ => exact .refl s

/-- What comes of the queue of a loop when it goes on, and of the stream that it has. -/
structure LoopFlows (waiting : σ → Nat → Option (List τ)) (s : σ) (work : Work ι)
    (calls : List (Call ι τ)) (s' : σ) (work' : Work ι) : Prop where
  /-- What waits on other streams stays. -/
  spares : Keeps waiting (stream? work) s s'
  there : ∀ stream, stream? work' = some stream → ∃ trades, waiting s' stream = some trades
  /-- A loop without a stream may open a new one. -/
  fresh : ∀ stream, stream? work' = some stream →
    stream? work = some stream ∨ stream? work = none ∧ waiting s stream = none
  conserves : queue waiting s work ++ (if stream? work = none then queue waiting s' work' else []) =
    calls.filterMap Call.trade? ++ queue waiting s' work'

theorem LoopFlows.of_keeps {stream : Nat} {trades : List τ} (hs : stream? work = some stream)
    (hs' : stream? work' = some stream) {s s' : σ} (hw : waiting s stream = some trades)
    (hkeeps : Keeps waiting none s s') (hno : calls.filterMap Call.trade? = []) :
    LoopFlows waiting s work calls s' work' where
  spares := hkeeps.leave
  there m hm := by
    cases hs'.symm.trans hm
    exact ⟨trades, hkeeps _ _ (by simp) hw⟩
  fresh m hm := .inl (hs.trans (hs'.symm.trans hm))
  conserves := by
    rw [if_neg (by simp [hs]), hno, queue_of_stream hs hw,
      queue_of_stream hs' (hkeeps _ _ (by simp) hw), List.append_nil, List.nil_append]

theorem LoopFlows.of_no_stream (hs' : stream? work' = none) {s s' : σ}
    (hkeeps : Keeps waiting (stream? work) s s') (hempty : queue waiting s work = [])
    (hno : calls.filterMap Call.trade? = []) :
    LoopFlows waiting s work calls s' work' where
  spares := hkeeps
  there m hm := by cases hs'.symm.trans hm
  fresh m hm := by cases hs'.symm.trans hm
  conserves := by rw [hempty, hno, queue_of_no_stream hs', ite_self]

/-- The trades that a loop takes are the front of its queue. -/
theorem gather_of_item (hq : Queued S waiting) {stream n : Nat} {first : τ} {rest trades : List τ}
    {s s' s'' : σ} (hw : waiting s stream = some trades)
    (hr : S.receive stream s = (.item first, s')) (hg : S.gather stream n s' = (rest, s'')) :
    first :: rest = trades.take (n + 1) ∧ waiting s'' stream = some (trades.drop (n + 1)) ∧
      Keeps waiting (some stream) s s'' := by
  cases trades with
  | nil =>
    obtain ⟨r, s₁, hr', hno, -⟩ := hq.nothing stream s hw
    rw [hr] at hr'
    cases hr'
    exact absurd rfl (hno first)
  | cons trade more =>
    obtain ⟨s₁, hr', hmore, hkeeps⟩ := hq.next stream trade more s hw
    rw [hr] at hr'
    cases hr'
    obtain ⟨s₂, hg', hdrop, hkeeps'⟩ := hq.gather n hmore
    rw [hg] at hg'
    cases hg'
    exact ⟨rfl, hdrop, hkeeps.trans hkeeps'⟩

/-- A loop that takes trades leaves the others in its queue. -/
theorem LoopFlows.of_gather (hq : Queued S waiting) {instrument : ι} {stream n : Nat} {first : τ}
    {rest trades : List τ} {s s' s'' : σ} (hs : stream? work' = some stream)
    (hw : waiting s stream = some trades) (hr : S.receive stream s = (.item first, s'))
    (hg : S.gather stream n s' = (rest, s'')) :
    LoopFlows waiting s (.stream instrument (.receiving stream))
      ((first :: rest).map (.receive stream)) s'' work' := by
  obtain ⟨htake, hdrop, hkeeps⟩ := gather_of_item hq hw hr hg
  refine ⟨hkeeps, ?_, fun m hm => .inl (hs.symm.trans hm), ?_⟩
  · intro m hm
    cases hs.symm.trans hm
    exact ⟨_, hdrop⟩
  · rw [trades_of_receives, queue_of_stream hs hdrop, htake, List.take_append_drop,
      queue_of_stream rfl hw, if_neg (by simp [stream?]), List.append_nil]

theorem LoopGoes.flows {instrument : ι} {stage : StreamStage} (hq : Queued S waiting)
    (h : LoopGoes V S now w instrument stage calls s work')
    (hthere : ∀ stream, stream? (.stream instrument stage) = some stream →
      ∃ trades, waiting w.around.1 stream = some trades) :
    LoopFlows waiting w.around.1 (.stream instrument stage) calls s work' := by
  cases h with
  | stops _ => exact .of_no_stream rfl (.refl _) rfl rfl
  | fails _ ho => exact .of_no_stream rfl (hq.fails _ _ _ _ _ ho) rfl rfl
  | restarts _ => exact .of_no_stream rfl (.refl _) rfl rfl
  | @opens stream s _ ho =>
    obtain ⟨hnew, ⟨trades, hw⟩, hkeeps⟩ := hq.opens _ _ _ _ _ ho
    refine ⟨hkeeps, ?_, ?_, rfl⟩
    · rintro _ ⟨⟩
      exact ⟨trades, hw⟩
    · rintro _ ⟨⟩
      exact .inr ⟨rfl, hnew⟩
  | passesOver hr hg _ =>
    obtain ⟨trades, hw⟩ := hthere _ rfl
    exact .of_gather hq rfl hw hr hg
  | takes hr hg _ =>
    obtain ⟨trades, hw⟩ := hthere _ rfl
    exact .of_gather hq rfl hw hr hg
  | @ends stream s hr =>
    -- the end of a stream comes after everything that waits on it
    obtain ⟨trades, hw⟩ := hthere _ rfl
    cases trades with
    | nil =>
      obtain ⟨r, s₁, hr', -, hkeeps⟩ := hq.nothing stream _ hw
      rw [hr] at hr'
      cases hr'
      exact .of_no_stream rfl (hkeeps.leave.trans (hq.drops stream s)) (queue_of_stream rfl hw) rfl
    | cons trade rest =>
      obtain ⟨s₁, hr', -⟩ := hq.next stream trade rest _ hw
      rw [hr] at hr'
      cases hr'
  | stores h =>
    obtain ⟨trades, hw⟩ := hthere _ rfl
    exact .of_keeps rfl rfl hw (hq.persistTicks _ _ _ _ _ h) rfl
  | retries h =>
    obtain ⟨trades, hw⟩ := hthere _ rfl
    exact .of_keeps rfl rfl hw (hq.persistTicks _ _ _ _ _ h) rfl
  | loses h =>
    obtain ⟨trades, hw⟩ := hthere _ rfl
    exact .of_keeps rfl rfl hw (hq.persistTicks _ _ _ _ _ h) rfl
  | keeps hd =>
    obtain ⟨trades, hw⟩ := hthere _ rfl
    exact .of_keeps rfl rfl hw (.refl _) rfl
  | forwards hd hp =>
    obtain ⟨trades, hw⟩ := hthere _ rfl
    exact .of_keeps rfl rfl hw (hq.publish _ hd _ _ _ _ _ hp) rfl
  | resumes h =>
    obtain ⟨trades, hw⟩ := hthere _ rfl
    refine .of_keeps rfl rfl hw ?_ rfl
    rcases h with ⟨-, rfl⟩ | ⟨d, r, hd, hp⟩
    · exact .refl _
    · exact hq.published d hd _ _ _ _ hp

theorem WorkGoes.flows (hq : Queued S waiting) (h : WorkGoes V S now w work calls s work')
    (hthere : ∀ stream, stream? work = some stream →
      ∃ trades, waiting w.around.1 stream = some trades) :
    LoopFlows waiting w.around.1 work calls s work' := by
  cases h with
  | pass h => exact .of_no_stream rfl (h.spares hq) rfl h.trades
  | poll h =>
    have hno : calls.filterMap Call.trade? = [] := by
      cases h with
      | passes h => exact h.trades
      | _ => rfl
    exact .of_no_stream (by cases h <;> rfl) (h.spares hq) rfl hno
  | stream h => exact h.flows hq hthere

end

/-! ## The streams of all loops -/

section

variable {σ ι ρ τ : Type}

/-- The stream that the loop of a number has. -/
def held (id : Nat) (t : Timed (Watched σ ι τ)) : Option Nat :=
  (t.world.job? id).bind fun j => stream? j.work

/-- What waits for a loop. -/
def pending (waiting : σ → Nat → Option (List τ)) (id : Nat) (t : Timed (Watched σ ι τ)) : List τ :=
  ((t.world.job? id).map fun j => queue waiting t.world.around.1 j.work).getD []

/-- What arrives for a loop in an incident: on the stream that it has, or on the one that it
opens. -/
def arrivedAt (waiting : σ → Nat → Option (List τ)) (id : Nat)
    (x : Incident (Timed (Watched σ ι τ)) (Event σ ι)) : List τ :=
  match x.event with
  | .around _ => (pending waiting id x.after).drop (pending waiting id x.before).length
  | .move (.goOn i) =>
    if i = id ∧ held id x.before = none then pending waiting id x.after else []
  | _ => []

def arrived (waiting : σ → Nat → Option (List τ)) (id : Nat)
    (h : List (Incident (Timed (Watched σ ι τ)) (Event σ ι))) : List τ :=
  h.flatMap (arrivedAt waiting id)

/-- Whatever changes around a collector, trades only arrive at the ends of the queues. -/
def Flowing (waiting : σ → Nat → Option (List τ))
    (h : List (Incident (Timed (Watched σ ι τ)) (Event σ ι))) : Prop :=
  ∀ x ∈ h, ∀ s, x.event = .around s → ∀ stream trades,
    waiting x.before.world.around.1 stream = some trades →
      ∃ more, waiting s stream = some (trades ++ more)

/-- The loops have different streams, all of which there are. -/
structure Apart (waiting : σ → Nat → Option (List τ)) (t : Timed (Watched σ ι τ)) : Prop where
  there : ∀ id stream, held id t = some stream →
    ∃ trades, waiting t.world.around.1 stream = some trades
  apart : ∀ id id' stream, held id t = some stream → held id' t = some stream → id = id'

variable {V : Venue ι ρ τ} {S : Surroundings σ ι ρ τ} {waiting : σ → Nat → Option (List τ)}
  {id : Nat} {t t' : Timed (Watched σ ι τ)} {e : Event σ ι}

theorem held_of_job {j : Job ι} (hj : t.world.job? id = some j) : held id t = stream? j.work := by
  rw [held, hj, Option.bind_some]

theorem pending_of_job {j : Job ι} (hj : t.world.job? id = some j) :
    pending waiting id t = queue waiting t.world.around.1 j.work := by
  rw [pending, hj, Option.map_some, Option.getD_some]

theorem pending_of_held {stream : Nat} {trades : List τ} (hheld : held id t = some stream)
    (hw : waiting t.world.around.1 stream = some trades) : pending waiting id t = trades := by
  obtain ⟨j, hj, hs⟩ := Option.bind_eq_some_iff.1 hheld
  rw [pending_of_job hj, queue_of_stream hs hw]

theorem pending_of_not_held (hheld : held id t = none) : pending waiting id t = [] := by
  cases hj : t.world.job? id with
  | none =>
    rw [pending, hj]
    rfl
  | some j =>
    rw [held_of_job hj] at hheld
    rw [pending_of_job hj, queue_of_no_stream hheld]

theorem held_of_fresh {work : Work ι} (h : Fresh work) : stream? work = none := by
  cases h <;> rfl

theorem held_of_over {j : Job ι} (h : j.work = .ended ∨ isPass j = true) :
    stream? j.work = none := by
  rcases h with hw | hpass
  · rw [hw]
    rfl
  · rw [isPass] at hpass
    split at hpass
    · rename_i hw
      rw [hw]
      rfl
    · cases hpass

/-- Another loop's going on, and all else that happens, takes nothing off the queue of a loop. -/
theorem Apart.waits (ha : Apart waiting t) (hq : Queued S waiting) (hsound : Sound t.world)
    (he : happens V S e t = some t') (hflow : Flowing waiting [⟨t, e, t'⟩])
    (hgo : e ≠ .move (.goOn id)) (hhalt : e ≠ .move (.halt id)) {stream : Nat} {trades : List τ}
    (hheld : held id t = some stream) (hw : waiting t.world.around.1 stream = some trades) :
    ∃ more, waiting t'.world.around.1 stream = some (trades ++ more) ∧
      ((∀ s, e ≠ .around s) → more = []) := by
  have hsame {s : σ} (hs : waiting s stream = some trades) :
      ∃ more, waiting s stream = some (trades ++ more) ∧ ((∀ s, e ≠ .around s) → more = []) :=
    ⟨[], by rw [List.append_nil, hs], fun _ => rfl⟩
  -- what another loop does is about its own stream
  have hother {i : Nat} {j : Job ι} (hj : t.world.job? i = some j) (hne : i ≠ id) :
      stream? j.work ≠ some stream := by
    intro hs
    exact hne (ha.apart i id stream ((held_of_job hj).trans hs) hheld)
  cases occurs_of_happens hsound he with
  | @goes j calls s work hj hg =>
    have hne : j.id ≠ id := by
      rintro rfl
      exact hgo rfl
    have hflows := hg.flows hq fun m hm => ha.there j.id m ((held_of_job hj).trans hm)
    exact hsame (hflows.spares _ _ (hother hj hne) hw)
  | @halts j calls s hj hstopped hh =>
    have hne : j.id ≠ id := by
      rintro rfl
      exact hhalt rfl
    exact hsame (hh.spares hq _ _ (hother hj hne) hw)
  | changes s =>
    obtain ⟨more, hmore⟩ := hflow _ (List.mem_singleton_self _) s rfl stream trades hw
    exact ⟨more, hmore, fun hno => absurd rfl (hno s)⟩
  | starts =>
    refine hsame ?_
    change waiting t.world.start.2.around.1 stream = some trades
    rw [log_start]
    exact hw
  | fetches hf => exact hsame (hq.fetch _ _ _ _ _ _ hf _ _ (by simp) hw)
  | _ => exact hsame hw

/-- The loop of a number goes on. -/
theorem goes_of_goOn (hsound : Sound t.world) (he : happens V S (.move (.goOn id)) t = some t') :
    ∃ j calls s work, t.world.job? id = some j ∧
      WorkGoes V S t.now t.world j.work calls s work ∧
      t' = (t.update fun w => (w.called s calls).setWork id work) ∧
      t'.world.job? id = some { j with work } := by
  cases fares_of_happens hsound he id with
  | goes _ hj hg ht hj' => exact ⟨_, _, _, _, hj, hg, ht, hj'⟩
  | stays hne _ => exact absurd rfl hne
  | halts he' | begins he' | leaves he' => simp at he'

/-- The loop of a number halts. -/
theorem halts_of_halt (hsound : Sound t.world) (he : happens V S (.move (.halt id)) t = some t') :
    t.world.stopped = true ∧ ∃ j calls s, t.world.job? id = some j ∧
      Halts S t.world.around.1 j.work calls s ∧
      t' = (t.update fun w => (w.called s calls).setWork id .ended) ∧
      t'.world.job? id = some { j with work := .ended } := by
  cases occurs_of_happens hsound he with
  | halts hj hstopped hh => exact ⟨hstopped, _, _, _, hj, hh, rfl, job?_setWork_self hj⟩

/-- A loop that neither goes on nor halts has the stream that it had. -/
theorem held_of_other (hsound : Sound t.world) (he : happens V S e t = some t')
    (hgo : e ≠ .move (.goOn id)) (hhalt : e ≠ .move (.halt id)) : held id t' = held id t := by
  cases fares_of_happens hsound he id with
  | goes he' => exact absurd he' hgo
  | halts he' => exact absurd he' hhalt
  | begins he' hj hj' hfresh =>
    rw [held_of_job hj', held_of_fresh hfresh, held, hj]
    rfl
  | leaves he' hj hover hj' =>
    rw [held_of_job hj, held_of_over hover, held, hj']
    rfl
  | stays he' hj' => rw [held, held, hj']

/-- What comes of the stream of a loop. -/
theorem Apart.held_cases (ha : Apart waiting t) (hq : Queued S waiting) (hsound : Sound t.world)
    (he : happens V S e t = some t') (id : Nat) :
    held id t' = none ∨ held id t' = held id t ∨
      e = .move (.goOn id) ∧ ∃ stream, held id t' = some stream ∧
        waiting t.world.around.1 stream = none := by
  by_cases hgo : e = .move (.goOn id)
  · subst hgo
    obtain ⟨j, calls, s, work, hj, hg, ht, hj'⟩ := goes_of_goOn hsound he
    have hflows := hg.flows hq fun m hm => ha.there id m ((held_of_job hj).trans hm)
    rw [held_of_job hj', held_of_job hj]
    cases hs : stream? work with
    | none => exact .inl rfl
    | some stream =>
      rcases hflows.fresh stream hs with hsame | ⟨-, hnew⟩
      · exact .inr (.inl hsame.symm)
      · exact .inr (.inr ⟨rfl, stream, rfl, hnew⟩)
  · by_cases hhalt : e = .move (.halt id)
    · subst hhalt
      obtain ⟨-, j, -, -, -, -, -, hj⟩ := halts_of_halt hsound he
      rw [held_of_job hj]
      exact .inl rfl
    · exact .inr (.inl (held_of_other hsound he hgo hhalt))

theorem Apart.next (ha : Apart waiting t) (hq : Queued S waiting) (hsound : Sound t.world)
    (he : happens V S e t = some t') (hflow : Flowing waiting [⟨t, e, t'⟩]) :
    Apart waiting t' where
  there id stream hheld := by
    by_cases hgo : e = .move (.goOn id)
    · subst hgo
      obtain ⟨j, calls, s, work, hj, hg, ht, hj'⟩ := goes_of_goOn hsound he
      have hflows := hg.flows hq fun m hm => ha.there id m ((held_of_job hj).trans hm)
      rw [held_of_job hj'] at hheld
      obtain ⟨trades, hw⟩ := hflows.there stream hheld
      rw [ht]
      exact ⟨trades, hw⟩
    · by_cases hhalt : e = .move (.halt id)
      · subst hhalt
        obtain ⟨-, j, -, -, -, -, -, hj⟩ := halts_of_halt hsound he
        rw [held_of_job hj] at hheld
        cases hheld
      · rw [held_of_other hsound he hgo hhalt] at hheld
        obtain ⟨trades, hw⟩ := ha.there id stream hheld
        obtain ⟨more, hmore, -⟩ := ha.waits hq hsound he hflow hgo hhalt hheld hw
        exact ⟨_, hmore⟩
  apart id id' stream hheld hheld' := by
    rcases ha.held_cases hq hsound he id with hnone | hsame | ⟨hgo, m, hm, hnew⟩
    · cases hnone.symm.trans hheld
    · obtain ⟨trades, hw⟩ := ha.there id stream (hsame.symm.trans hheld)
      rcases ha.held_cases hq hsound he id' with hnone' | hsame' | ⟨-, m', hm', hnew'⟩
      · cases hnone'.symm.trans hheld'
      · exact ha.apart id id' stream (hsame.symm.trans hheld) (hsame'.symm.trans hheld')
      · cases hm'.symm.trans hheld'
        cases hnew'.symm.trans hw
    · cases hm.symm.trans hheld
      rcases ha.held_cases hq hsound he id' with hnone' | hsame' | ⟨hgo', -⟩
      · cases hnone'.symm.trans hheld'
      · obtain ⟨trades, hw⟩ := ha.there id' _ (hsame'.symm.trans hheld')
        cases hnew.symm.trans hw
      · simpa using hgo.symm.trans hgo'

/-! ## What arrives is taken, or waits -/

/-- The loop of a number has ended, or there is none. -/
def Over (id : Nat) (t : Timed (Watched σ ι τ)) : Prop :=
  ∀ j, t.world.job? id = some j → j.work = .ended

theorem Over.not_held (h : Over id t) : held id t = none := by
  cases hj : t.world.job? id with
  | none =>
    rw [held, hj]
    rfl
  | some j =>
    rw [held_of_job hj, h j hj]
    rfl

theorem arrivedAt_of_quiet (hgo : e ≠ .move (.goOn id)) (haround : ∀ s, e ≠ .around s) :
    arrivedAt waiting id ⟨t, e, t'⟩ = [] := by
  unfold arrivedAt
  split
  · rename_i s hs
    exact absurd hs (haround s)
  · rename_i i hi
    refine if_neg ?_
    rintro ⟨rfl, -⟩
    exact hgo hi
  · rfl

/-- Nothing arrives where there is no stream. -/
theorem arrivedAt_of_not_held (hheld : held id t = none) (hheld' : held id t' = none) :
    arrivedAt waiting id ⟨t, e, t'⟩ = [] := by
  unfold arrivedAt
  split
  · simp only [pending_of_not_held hheld, pending_of_not_held hheld', List.drop_nil]
  · simp only [pending_of_not_held hheld', ite_self]
  · rfl

/-- What is neither taken nor lost in a halt goes on to wait, before what arrives. -/
theorem Apart.conserves (ha : Apart waiting t) (hq : Queued S waiting) (hsound : Sound t.world)
    (he : happens V S e t = some t') (hflow : Flowing waiting [⟨t, e, t'⟩])
    (hhalt : e ≠ .move (.halt id)) :
    pending waiting id t ++ arrivedAt waiting id ⟨t, e, t'⟩ =
      takenAt id ⟨t, e, t'⟩ ++ pending waiting id t' := by
  by_cases hgo : e = .move (.goOn id)
  · subst hgo
    obtain ⟨j, calls, s, work, hj, hg, ht, hj'⟩ := goes_of_goOn hsound he
    have hflows := hg.flows hq fun m hm => ha.there id m ((held_of_job hj).trans hm)
    have hcalls : callsAt (⟨t, .move (.goOn id), t'⟩ : Incident _ (Event σ ι)) = calls :=
      callsAt_of_log (by rw [ht]; rfl)
    have haround : t'.world.around.1 = s := by rw [ht]; rfl
    have hconserves := hflows.conserves
    simp only [arrivedAt, takenAt, if_true, true_and, hcalls, pending_of_job hj,
      pending_of_job hj', haround, held_of_job hj]
    exact hconserves
  · rw [takenAt_of_ne hgo, List.nil_append]
    have hsame := held_of_other hsound he hgo hhalt
    cases hheld : held id t with
    | none =>
      rw [pending_of_not_held hheld, pending_of_not_held (hsame.trans hheld),
        arrivedAt_of_not_held hheld (hsame.trans hheld), List.append_nil]
    | some stream =>
      obtain ⟨trades, hw⟩ := ha.there id stream hheld
      obtain ⟨more, hmore, hquiet⟩ := ha.waits hq hsound he hflow hgo hhalt hheld hw
      have hbefore : pending waiting id t = trades := pending_of_held hheld hw
      have hafter : pending waiting id t' = trades ++ more :=
        pending_of_held (hsame.trans hheld) hmore
      by_cases haround : ∃ s, e = .around s
      · obtain ⟨s, rfl⟩ := haround
        simp only [arrivedAt, hbefore, hafter, List.drop_left]
      · rw [arrivedAt_of_quiet hgo fun s hs => haround ⟨s, hs⟩, hbefore, hafter,
          hquiet fun s hs => haround ⟨s, hs⟩]

/-- What is known of the trades of a loop after a history. -/
structure Flow (waiting : σ → Nat → Option (List τ)) (id : Nat)
    (h : List (Incident (Timed (Watched σ ι τ)) (Event σ ι))) (t : Timed (Watched σ ι τ)) :
    Prop where
  apart : Apart waiting t
  /-- All that arrived was taken or waits, unless the loop was stopped. -/
  flows : arrived waiting id h = taken id h ++ pending waiting id t ∨
    t.world.stopped = true ∧ Over id t ∧ taken id h <+: arrived waiting id h
  /-- Nothing arrived for a job that did not begin yet. -/
  unborn : t.world.nextId ≤ id → t.world.job? id = none ∧ arrived waiting id h = []

variable {h : List (Incident (Timed (Watched σ ι τ)) (Event σ ι))}

theorem arrived_concat (h : List (Incident (Timed (Watched σ ι τ)) (Event σ ι)))
    (x : Incident (Timed (Watched σ ι τ)) (Event σ ι)) :
    arrived waiting id (h ++ [x]) = arrived waiting id h ++ arrivedAt waiting id x :=
  flatMap_concat h x _

/-- A collector that was stopped stays so. -/
theorem stopped_of_happens (hsound : Sound t.world) (he : happens V S e t = some t')
    (hstopped : t.world.stopped = true) : t'.world.stopped = true := by
  cases occurs_of_happens hsound he with
  | starts =>
    have hkeep : t.world.start.2.stopped = true :=
      start_keeps (P := fun w => w.stopped = true) (fun _ h => h) (fun _ _ _ _ h => h) hstopped
    exact hkeep
  | stops => rfl
  | _ => exact hstopped

/-- A loop that has ended does nothing more, and its number is not given again. -/
theorem Over.next (h : Over id t) (hsound : Sound t.world) (he : happens V S e t = some t') :
    takenAt id ⟨t, e, t'⟩ = [] ∧ (Over id t' ∨ t.world.nextId ≤ id) := by
  refine ⟨?_, ?_⟩
  · rcases takes_of_happens id hsound he with hnone | ⟨j, i, stream, htakes⟩
    · exact hnone
    · cases (h j htakes.job).symm.trans htakes.work
  · cases fares_of_happens hsound he id with
    | goes he' hj hg ht hj' =>
      rw [h _ hj] at hg
      cases hg
    | halts he' hj hstopped hh ht hj' =>
      rw [h _ hj] at hh
      cases hh
    | begins he' hj hj' hfresh => exact .inr ((nextId_of_happens hsound he).2 id _ hj hj')
    | leaves he' hj hover hj' =>
      refine .inl fun i hi => ?_
      rw [hj'] at hi
      cases hi
    | stays he' hj' => exact .inl fun i hi => h i (hj' ▸ hi)

theorem Flow.next (h' : Flow waiting id h t) (hq : Queued S waiting) (hsound : Sound t.world)
    (he : happens V S e t = some t') (hflow : Flowing waiting [⟨t, e, t'⟩]) :
    Flow waiting id (h ++ [⟨t, e, t'⟩]) t' := by
  have hnext := (nextId_of_happens hsound he).1
  have hunborn : t'.world.nextId ≤ id → t'.world.job? id = none := by
    intro hid
    cases hj : t'.world.job? id with
    | none => rfl
    | some j =>
      have hlt := (hsound.next he).numbered j (mem_of_job? hj)
      rw [id_of_job? hj] at hlt
      omega
  have hnone {t : Timed (Watched σ ι τ)} (hj : t.world.job? id = none) : held id t = none := by
    rw [held, hj]
    rfl
  refine ⟨h'.apart.next hq hsound he hflow, ?_, ?_⟩
  · rw [arrived_concat, taken_concat]
    by_cases hhalt : e = .move (.halt id)
    · subst hhalt
      obtain ⟨hstopped, j, -, -, -, -, -, hj⟩ := halts_of_halt hsound he
      rw [arrivedAt_of_quiet (by simp) (by simp), takenAt_of_ne (by simp), List.append_nil,
        List.append_nil]
      refine .inr ⟨stopped_of_happens hsound he hstopped, ?_, ?_⟩
      · intro i hi
        cases hj.symm.trans hi
        rfl
      · rcases h'.flows with hall | ⟨-, -, hprefix⟩
        · exact hall ▸ List.prefix_append _ _
        · exact hprefix
    · have hconserves := h'.apart.conserves hq hsound he hflow hhalt
      rcases h'.flows with hall | ⟨hstopped, hover, hprefix⟩
      · refine .inl ?_
        rw [hall, List.append_assoc, hconserves, List.append_assoc]
      · obtain ⟨htaken, hover' | hid⟩ := hover.next hsound he
        · refine .inr ⟨stopped_of_happens hsound he hstopped, hover', ?_⟩
          rw [htaken, List.append_nil]
          exact hprefix.trans (List.prefix_append _ _)
        · -- the number was not given before, so nothing has arrived yet
          refine .inl ?_
          have hnil := (h'.unborn hid).2
          rw [hnil, List.prefix_nil] at hprefix
          rw [pending_of_not_held hover.not_held, List.nil_append, htaken, List.nil_append]
            at hconserves
          rw [hnil, hprefix, htaken, hconserves]
          rfl
  · intro hid
    obtain ⟨hjob, hnil⟩ := h'.unborn (Nat.le_trans hnext hid)
    rw [arrived_concat, hnil, arrivedAt_of_not_held (hnone hjob) (hnone (hunborn hid))]
    exact ⟨hunborn hid, rfl⟩

theorem flow_of_history {config : Config ι} {a : σ} {start : Nat} (hq : Queued S waiting)
    (hist : History (happens V S) ⟨start, .new config (a, [])⟩ h t) (hflow : Flowing waiting h)
    (id : Nat) : Flow waiting id h t := by
  induction hist with
  | nil =>
    refine ⟨⟨?_, ?_⟩, .inl rfl, fun _ => ⟨rfl, rfl⟩⟩
    · rintro id stream ⟨⟩
    · rintro id id' stream ⟨⟩
  | snoc hist he ih =>
    exact (ih fun x hx => hflow x (List.mem_append_left _ hx)).next hq (sound_of_history hist) he
      fun x hx => hflow x (List.mem_append_right _ hx)

end

end World
end Collector
end MarketFeed
