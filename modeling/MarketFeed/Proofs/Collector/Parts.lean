import MarketFeed.Proofs.Collector.Arrivals
import Mathlib.Data.Nat.Pairing

/-!
# MarketFeed.Proofs.Collector.Parts

A source in parts that need know nothing of each other, and outlets that answer every call at once.

* `Subject`, `Ask`, `Ledger` — what a loop is about, what it asks of the source, and what was asked.
* `Answers`, `Source` — what the parts of a source answer.
* `Outlets` — a store and a downstream that answer every call by itself.
* `Source.surroundings` — what a collector sees of them.
* `Source.SameIn` — in two sources a part answers alike, by what was asked of it only.
* `Wired` — a job has to do with one part only.
* `WorkGoes.twin`, `Halts.twin` — it does the same wherever that part is the same.
* `WorkGoes.within`, `Halts.within` — it leaves the other parts as they are.
-/

namespace MarketFeed
namespace Collector

/-! ## The source and the outlets -/

/-- What a loop is about: the history of an instrument, or its trades. -/
inductive Subject (ι : Type) where
  | history (instrument : ι) (interval : Interval)
  | trades (instrument : ι)
  deriving DecidableEq

/-- What is asked of a source. A stream goes by the place of its opening among all that was asked of
the same part. -/
inductive Ask (ι : Type) where
  | fetch (instrument : ι) (request : HistoryRequest)
  | openStream (instrument : ι)
  | receive (opening : Nat)
  | dropStream (opening : Nat)

/-- A downstream that gives each publication a number and has the answer to it at once. -/
structure Outlet where
  publish : Nat → List Tick → Nat
  answer : Nat → Except String Unit

def Outlet.downstream {σ : Type} (d : Outlet) : Downstream σ :=
  ⟨fun now batch s => (d.publish now batch, s), fun n s => some (d.answer n, s)⟩

/-- A store and a downstream that answer every call by itself and at once. -/
structure Outlets where
  bars : Nat → List Bar → Except StoreError Nat
  ticks : Nat → List Tick → Except StoreError Nat
  downstream : Option Outlet

/-- What was asked of the parts of a source, each time with the part and the time, and the time
now. -/
structure Ledger (ι : Type) where
  now : Nat
  log : List (Nat × Nat × Ask ι)

namespace Ledger

variable {ι : Type}

def new (now : Nat) : Ledger ι := ⟨now, []⟩

def ask (l : Ledger ι) (part now : Nat) (a : Ask ι) : Ledger ι :=
  { l with log := l.log ++ [(part, now, a)] }

/-- What was asked of a part. -/
def asked (l : Ledger ι) (part : Nat) : List (Nat × Ask ι) :=
  (l.log.filter (·.1 = part)).map Prod.snd

end Ledger

/-- What a part of a source answers. -/
structure Answers (ρ τ : Type) where
  /-- What has come of the fetch at some place; none while it is under way. -/
  rows : Nat → Option (Except VenueError (List ρ))
  /-- Why the last thing asked, an opening, failed, if it did. -/
  refusal : Option VenueError
  /-- What there is on the stream that was opened at some place. -/
  next : Nat → Received τ

/-- A source in parts, by number. A part may serve one subject only, or all subjects of one
instrument, or more. What it answers may depend on the time and on all that was asked, of any
part. -/
structure Source (ι ρ τ : Type) where
  part : Subject ι → Nat
  answers : Nat → Ledger ι → Answers ρ τ

/-- What a collector sees. A fetch and a stream have a number that tells the part and the place. -/
def Source.surroundings {ι ρ τ : Type} (A : Source ι ρ τ) (O : Outlets) :
    Surroundings (Ledger ι) ι ρ τ where
  fetch now instrument request l :=
    let part := A.part (.history instrument request.interval)
    (Nat.pair part (l.asked part).length, l.ask part now (.fetch instrument request))
  fetched? _ n l := ((A.answers n.unpair.1 l).rows n.unpair.2).map fun r => (r, l)
  openStream now instrument l :=
    let part := A.part (.trades instrument)
    let l' := l.ask part now (.openStream instrument)
    match (A.answers part l').refusal with
    | some e => (.error e, l')
    | none => (.ok (Nat.pair part (l.asked part).length), l')
  receive n l :=
    match (A.answers n.unpair.1 l).next n.unpair.2 with
    | .item trade => (.item trade, l.ask n.unpair.1 l.now (.receive n.unpair.2))
    | .empty => (.empty, l)
    | .ended => (.ended, l)
  dropStream n l := l.ask n.unpair.1 l.now (.dropStream n.unpair.2)
  persistBars now bars l := (O.bars now bars, l)
  persistTicks now ticks l := (O.ticks now ticks, l)
  downstream := O.downstream.map Outlet.downstream

/-! ## One part -/

/-- The same time, and the same said of a part. -/
structure Ledger.Same {ι : Type} (part : Nat) (l l' : Ledger ι) : Prop where
  now : l'.now = l.now
  asked : l'.asked part = l.asked part

/-- The same parts, of which one answers the same as long as the same is asked of it, whatever is
asked of the others. -/
structure Source.SameIn {ι ρ τ : Type} (part : Nat) (A A' : Source ι ρ τ) : Prop where
  parts : A'.part = A.part
  answers : ∀ l l' : Ledger ι, l.Same part l' → A'.answers part l' = A.answers part l

section

variable {ι ρ τ : Type} {A A' : Source ι ρ τ} {O : Outlets} {part part' now n : Nat}
  {l l' l₁ : Ledger ι} {a : Ask ι} {instrument : ι}

namespace Ledger

theorem Same.refl (l : Ledger ι) : Same part l l := ⟨rfl, rfl⟩

theorem Same.symm (h : Same part l l') : Same part l' l := ⟨h.now.symm, h.asked.symm⟩

theorem Same.trans (h : Same part l l') (h' : Same part l' l₁) : Same part l l₁ :=
  ⟨h'.now.trans h.now, h'.asked.trans h.asked⟩

theorem asked_ask : (l.ask part now a).asked part = l.asked part ++ [(now, a)] := by
  simp [asked, ask]

theorem asked_ask_of_ne (hne : part' ≠ part) : (l.ask part now a).asked part' = l.asked part' := by
  simp [asked, ask, hne.symm]

theorem Same.ask (h : Same part l l') (now : Nat) (a : Ask ι) :
    Same part (l.ask part now a) (l'.ask part now a) :=
  ⟨h.now, by rw [asked_ask, asked_ask, h.asked]⟩

theorem Same.of_ask (hne : part' ≠ part) (l : Ledger ι) (now : Nat) (a : Ask ι) :
    Same part' l (l.ask part now a) :=
  ⟨rfl, asked_ask_of_ne hne⟩

end Ledger

theorem Agree.of_eq {σ σ' α : Type} {R : σ → σ' → Prop} {p : α × σ} {p' : α × σ'} {r : α} {s : σ}
    (h : Agree R p p') (hp : p = (r, s)) : ∃ s', p' = (r, s') ∧ R s s' := by
  subst hp
  exact ⟨p'.2, Prod.ext h.1 rfl, h.2⟩

namespace Source.SameIn

theorem symm (h : SameIn part A A') : SameIn part A' A :=
  ⟨h.parts.symm, fun l l' hl => (h.answers l' l hl.symm).symm⟩

theorem between {A₀ : Source ι ρ τ} (h : SameIn part A₀ A) (h' : SameIn part A₀ A') :
    SameIn part A A' :=
  ⟨h'.parts.trans h.parts.symm,
    fun l l' hl => (h'.answers l l' hl).trans (h.answers l l (.refl l)).symm⟩

/-- What is asked of the other parts makes no difference. -/
theorem left (h : SameIn part A A') : SameIn part A A := h.symm.between h.symm

theorem fetch (h : SameIn part A A') (hl : l.Same part l') (request : HistoryRequest)
    (hpart : A.part (.history instrument request.interval) = part) :
    Agree (Ledger.Same part) ((A.surroundings O).fetch now instrument request l)
      ((A'.surroundings O).fetch now instrument request l') := by
  simp only [surroundings, h.parts, hpart]
  exact ⟨congrArg (Nat.pair part) (congrArg List.length hl.asked), hl.ask _ _⟩

theorem fetched? (h : SameIn part A A') (hl : l.Same part l') (hn : n.unpair.1 = part)
    {r : Except VenueError (List ρ)} (hf : (A.surroundings O).fetched? now n l = some (r, l₁)) :
    (A'.surroundings O).fetched? now n l' = some (r, l') := by
  simp only [surroundings, hn] at hf ⊢
  obtain ⟨r', hr, heq⟩ := Option.map_eq_some_iff.1 hf
  cases heq
  rw [h.answers l l' hl, hr]
  rfl

theorem openStream (h : SameIn part A A') (hl : l.Same part l')
    (hpart : A.part (.trades instrument) = part) :
    Agree (Ledger.Same part) ((A.surroundings O).openStream now instrument l)
      ((A'.surroundings O).openStream now instrument l') := by
  have hask := hl.ask now (.openStream instrument)
  simp only [surroundings, h.parts, hpart, h.answers _ _ hask, hl.asked]
  split
  · exact ⟨rfl, hl.ask _ _⟩
  · exact ⟨rfl, hl.ask _ _⟩

theorem receive (h : SameIn part A A') (hl : l.Same part l') (hn : n.unpair.1 = part) :
    Agree (Ledger.Same part) ((A.surroundings O).receive n l)
      ((A'.surroundings O).receive n l') := by
  simp only [surroundings, hn, h.answers l l' hl, hl.now]
  split
  · exact ⟨rfl, hl.ask _ _⟩
  · exact ⟨rfl, hl⟩
  · exact ⟨rfl, hl⟩

theorem gather (h : SameIn part A A') (hl : l.Same part l') (hn : n.unpair.1 = part) (most : Nat) :
    Agree (Ledger.Same part) ((A.surroundings O).gather n most l)
      ((A'.surroundings O).gather n most l') := by
  induction most generalizing l l' with
  | zero => exact ⟨rfl, hl⟩
  | succ most ih =>
    obtain ⟨hsame, hnext⟩ := h.receive (O := O) hl hn
    rw [Surroundings.gather_succ, Surroundings.gather_succ]
    simp only [hsame]
    cases ((A.surroundings O).receive n l).1 with
    | item t => exact ⟨congrArg (t :: ·) (ih hnext).1, (ih hnext).2⟩
    | empty => exact ⟨rfl, hnext⟩
    | ended => exact ⟨rfl, hnext⟩

theorem dropStream (hl : l.Same part l') (hn : n.unpair.1 = part) :
    Ledger.Same part ((A.surroundings O).dropStream n l) ((A'.surroundings O).dropStream n l') := by
  simp only [surroundings, hn, hl.now]
  exact hl.ask _ _

end Source.SameIn

/-- Taking what has come of a fetch is not told to the source. -/
theorem fetched?_same {r : Except VenueError (List ρ)}
    (h : (A.surroundings O).fetched? now n l = some (r, l₁)) : l₁ = l := by
  obtain ⟨r', -, heq⟩ := Option.map_eq_some_iff.1 h
  exact (congrArg Prod.snd heq).symm

/-- The outlets keep nothing. -/
theorem persistBars_same {bars : List Bar} {r : Except StoreError Nat}
    (h : (A.surroundings O).persistBars now bars l = (r, l₁)) (A' : Source ι ρ τ) (l' : Ledger ι) :
    l₁ = l ∧ (A'.surroundings O).persistBars now bars l' = (r, l') := by
  cases h
  exact ⟨rfl, rfl⟩

theorem persistTicks_same {ticks : List Tick} {r : Except StoreError Nat}
    (h : (A.surroundings O).persistTicks now ticks l = (r, l₁)) (A' : Source ι ρ τ)
    (l' : Ledger ι) :
    l₁ = l ∧ (A'.surroundings O).persistTicks now ticks l' = (r, l') := by
  cases h
  exact ⟨rfl, rfl⟩

/-! ## The other parts -/

/-- Only one part was asked. -/
def Ledger.Within (part : Nat) (l l' : Ledger ι) : Prop := ∀ part', part' ≠ part → Same part' l l'

theorem Ledger.Within.refl (l : Ledger ι) : Within part l l := fun _ _ => .refl l

theorem Ledger.Within.trans (h : Within part l l') (h' : Within part l' l₁) : Within part l l₁ :=
  fun part' hne => (h part' hne).trans (h' part' hne)

theorem receive_within (hn : n.unpair.1 = part) :
    l.Within part ((A.surroundings O).receive n l).2 := by
  simp only [Source.surroundings, hn]
  split
  · exact fun part' hne => .of_ask hne _ _ _
  · exact .refl l
  · exact .refl l

theorem gather_within (hn : n.unpair.1 = part) (most : Nat) :
    l.Within part ((A.surroundings O).gather n most l).2 := by
  induction most generalizing l with
  | zero => exact .refl l
  | succ most ih =>
    have hfirst : l.Within part ((A.surroundings O).receive n l).2 := receive_within hn
    rw [Surroundings.gather_succ]
    dsimp only
    split
    · exact hfirst.trans ih
    · exact hfirst
    · exact hfirst

theorem openStream_within (hpart : A.part (.trades instrument) = part) :
    l.Within part ((A.surroundings O).openStream now instrument l).2 := by
  simp only [Source.surroundings, hpart]
  split <;> exact fun part' hne => .of_ask hne _ _ _

theorem number_of_opening (h : (A.surroundings O).openStream now instrument l = (.ok n, l₁)) :
    n.unpair.1 = A.part (.trades instrument) := by
  simp only [Source.surroundings] at h
  split at h
  · cases h
  · cases h
    rw [Nat.unpair_pair]

theorem dropStream_within (hn : n.unpair.1 = part) :
    l.Within part ((A.surroundings O).dropStream n l) := by
  simp only [Source.surroundings, hn]
  exact fun part' hne => .of_ask hne _ _ _

/-! ## One job -/

namespace World

/-- What a job is about. -/
def subject? : Work ι → Option (Subject ι)
  | .pass instrument request _ => some (.history instrument request.interval)
  | .poll instrument interval _ => some (.history instrument interval)
  | .stream instrument _ => some (.trades instrument)
  | .ended => none

/-- The fetch that a job waits for, or the stream that it has. -/
def handle? : Work ι → Option Nat
  | .pass _ _ (.fetching fetch) => some fetch
  | .poll _ _ (.passing (.fetching fetch)) => some fetch
  | work => stream? work

/-- A job has to do with one part only. -/
structure Wired (A : Source ι ρ τ) (part : Nat) (work : Work ι) : Prop where
  subject : ∀ s, subject? work = some s → A.part s = part
  handle : ∀ n, handle? work = some n → n.unpair.1 = part

theorem wired_ended : Wired A part (.ended : Work ι) := ⟨by rintro s ⟨⟩, by rintro n ⟨⟩⟩

variable {V : Venue ι ρ τ} {w w' : Watched (Ledger ι) ι τ} {work work' : Work ι}
  {calls : List (Call ι τ)} {interval : Interval}

/-- A pass that goes on asks nothing more of the source. -/
theorem PassGoes.ledger {stage stage' : PassStage}
    (h : PassGoes V (A.surroundings O) now l instrument interval stage calls l₁ stage') :
    l₁ = l := by
  cases h with
  | fetches h | fails h => exact fetched?_same h
  | skips => rfl
  | stores hne h => exact (persistBars_same h A l).1

theorem PassGoes.twin {stage stage' : PassStage}
    (h : PassGoes V (A.surroundings O) now l instrument interval stage calls l₁ stage')
    (hA : A.SameIn part A') (hl : l.Same part l')
    (hn : ∀ n, stage = .fetching n → n.unpair.1 = part) :
    PassGoes V (A'.surroundings O) now l' instrument interval stage calls l' stage' := by
  cases h with
  | fetches h => exact .fetches (hA.fetched? hl (hn _ rfl) h)
  | fails h => exact .fails (hA.fetched? hl (hn _ rfl) h)
  | skips => exact .skips
  | stores hne h => exact .stores hne (persistBars_same h A' l').2

theorem PollGoes.twin {stage : PollStage}
    (h : PollGoes V (A.surroundings O) now w instrument interval stage calls l₁ work)
    (hA : A.SameIn part A') (hconfig : w'.config = w.config) (hstopped : w'.stopped = w.stopped)
    (hl : w.around.1.Same part w'.around.1)
    (hwired : Wired A part (.poll instrument interval stage)) :
    ∃ l₁', PollGoes V (A'.surroundings O) now w' instrument interval stage calls l₁' work ∧
      l₁.Same part l₁' := by
  cases h with
  | stops h => exact ⟨_, .stops (hstopped.trans h), hl⟩
  | asks h hf =>
    obtain ⟨l₁', hf', hl₁⟩ := (hA.fetch hl _ (hwired.subject _ rfl)).of_eq hf
    rw [← hconfig] at hf' ⊢
    exact ⟨l₁', .asks (hstopped.trans h) hf', hl₁⟩
  | @passes stage _ _ _ h =>
    have hn : ∀ n, stage = .fetching n → n.unpair.1 = part := by
      rintro n rfl
      exact hwired.handle n rfl
    obtain rfl := h.ledger
    exact ⟨_, .passes (h.twin hA hl hn), hl⟩
  | pauses =>
    rw [← hconfig]
    exact ⟨_, .pauses, hl⟩
  | resumes hdue => exact ⟨_, .resumes hdue, hl⟩

theorem LoopGoes.twin {stage : StreamStage}
    (h : LoopGoes V (A.surroundings O) now w instrument stage calls l₁ work)
    (hA : A.SameIn part A') (hconfig : w'.config = w.config) (hstopped : w'.stopped = w.stopped)
    (hl : w.around.1.Same part w'.around.1) (hwired : Wired A part (.stream instrument stage)) :
    ∃ l₁', LoopGoes V (A'.surroundings O) now w' instrument stage calls l₁' work ∧
      l₁.Same part l₁' := by
  have hbatch : w'.batchSize = w.batchSize :=
    congrArg (fun c => max c.tickBatchSize.toNat 1) hconfig
  cases h with
  | stops h => exact ⟨_, .stops (hstopped.trans h), hl⟩
  | opens h ho =>
    obtain ⟨l₁', ho', hl₁⟩ := (hA.openStream hl (hwired.subject _ rfl)).of_eq ho
    exact ⟨l₁', .opens (hstopped.trans h) ho', hl₁⟩
  | fails h ho =>
    obtain ⟨l₁', ho', hl₁⟩ := (hA.openStream hl (hwired.subject _ rfl)).of_eq ho
    rw [← hconfig]
    exact ⟨l₁', .fails (hstopped.trans h) ho', hl₁⟩
  | passesOver hr hg hnone =>
    obtain ⟨l₂', hr', hl₂⟩ := (hA.receive hl (hwired.handle _ rfl)).of_eq hr
    obtain ⟨l₁', hg', hl₁⟩ := (hA.gather hl₂ (hwired.handle _ rfl) _).of_eq hg
    exact ⟨l₁', .passesOver hr' (hbatch ▸ hg') hnone, hl₁⟩
  | takes hr hg hsome =>
    obtain ⟨l₂', hr', hl₂⟩ := (hA.receive hl (hwired.handle _ rfl)).of_eq hr
    obtain ⟨l₁', hg', hl₁⟩ := (hA.gather hl₂ (hwired.handle _ rfl) _).of_eq hg
    exact ⟨l₁', .takes hr' (hbatch ▸ hg') hsome, hl₁⟩
  | ends hr =>
    obtain ⟨l₂', hr', hl₂⟩ := (hA.receive hl (hwired.handle _ rfl)).of_eq hr
    rw [← hconfig]
    exact ⟨_, .ends hr', Source.SameIn.dropStream hl₂ (hwired.handle _ rfl)⟩
  | stores h =>
    obtain ⟨rfl, h'⟩ := persistTicks_same h A' w'.around.1
    exact ⟨_, .stores h', hl⟩
  | retries h =>
    obtain ⟨rfl, h'⟩ := persistTicks_same h A' w'.around.1
    exact ⟨_, .retries h', hl⟩
  | loses h =>
    obtain ⟨rfl, h'⟩ := persistTicks_same h A' w'.around.1
    exact ⟨_, .loses h', hl⟩
  | keeps hd => exact ⟨_, .keeps hd, hl⟩
  | forwards hd hp =>
    obtain ⟨d, -, rfl⟩ := Option.map_eq_some_iff.1 hd
    cases hp
    exact ⟨_, .forwards hd rfl, hl⟩
  | resumes h =>
    rcases h with ⟨hd, rfl⟩ | ⟨d, r, hd, h⟩
    · exact ⟨_, .resumes (.inl ⟨hd, rfl⟩), hl⟩
    · obtain ⟨d, -, rfl⟩ := Option.map_eq_some_iff.1 hd
      cases h
      exact ⟨_, .resumes (.inr ⟨_, _, hd, rfl⟩), hl⟩
  | restarts hdue => exact ⟨_, .restarts hdue, hl⟩

/-- A job does the same wherever its part is the same. -/
theorem WorkGoes.twin (h : WorkGoes V (A.surroundings O) now w work calls l₁ work')
    (hA : A.SameIn part A') (hconfig : w'.config = w.config) (hstopped : w'.stopped = w.stopped)
    (hl : w.around.1.Same part w'.around.1) (hwired : Wired A part work) :
    ∃ l₁', WorkGoes V (A'.surroundings O) now w' work calls l₁' work' ∧ l₁.Same part l₁' := by
  cases h with
  | @pass _ _ stage _ _ _ h =>
    have hn : ∀ n, stage = .fetching n → n.unpair.1 = part := by
      rintro n rfl
      exact hwired.handle n rfl
    obtain rfl := h.ledger
    exact ⟨_, .pass (h.twin hA hl hn), hl⟩
  | poll h =>
    obtain ⟨l₁', h', hl₁⟩ := h.twin hA hconfig hstopped hl hwired
    exact ⟨l₁', .poll h', hl₁⟩
  | stream h =>
    obtain ⟨l₁', h', hl₁⟩ := h.twin hA hconfig hstopped hl hwired
    exact ⟨l₁', .stream h', hl₁⟩

theorem Halts.twin (h : Halts (A.surroundings O) l work calls l₁) (A' : Source ι ρ τ)
    (hl : l.Same part l') (hwired : Wired A part work) :
    ∃ l₁', Halts (A'.surroundings O) l' work calls l₁' ∧ l₁.Same part l₁' := by
  cases h with
  | poll => exact ⟨_, .poll, hl⟩
  | pause => exact ⟨_, .pause, hl⟩
  | receive => exact ⟨_, .receive, Source.SameIn.dropStream hl (hwired.handle _ rfl)⟩

/-! ## What it leaves -/

theorem LoopGoes.within {stage : StreamStage}
    (h : LoopGoes V (A.surroundings O) now w instrument stage calls l₁ work)
    (hwired : Wired A part (.stream instrument stage)) :
    Wired A part work ∧ w.around.1.Within part l₁ := by
  have hkeep {stage' : StreamStage} (hstream : ∀ n, stream? (.stream instrument stage') = some n →
      stream? (.stream instrument stage) = some n) : Wired A part (.stream instrument stage') :=
    ⟨hwired.subject, fun n hn => hwired.handle n (hstream n hn)⟩
  have hpart : A.part (.trades instrument) = part := hwired.subject _ rfl
  have hreceive {n most : Nat} {first : τ} {rest : List τ} {l₂ : Ledger ι}
      (hn : n.unpair.1 = part)
      (hr : (A.surroundings O).receive n w.around.1 = (.item first, l₂))
      (hg : (A.surroundings O).gather n most l₂ = (rest, l₁)) : w.around.1.Within part l₁ := by
    have hfirst := receive_within (A := A) (O := O) (l := w.around.1) hn
    have hrest := gather_within (A := A) (O := O) (l := l₂) hn most
    rw [hr] at hfirst
    rw [hg] at hrest
    exact hfirst.trans hrest
  have hopen : w.around.1.Within part
      ((A.surroundings O).openStream now instrument w.around.1).2 := openStream_within hpart
  cases h with
  | stops h => exact ⟨wired_ended, .refl _⟩
  | opens h ho =>
    rw [ho] at hopen
    refine ⟨⟨hwired.subject, ?_⟩, hopen⟩
    rintro n ⟨⟩
    exact (number_of_opening ho).trans hpart
  | fails h ho =>
    rw [ho] at hopen
    exact ⟨hkeep (by rintro n ⟨⟩), hopen⟩
  | passesOver hr hg hnone => exact ⟨hwired, hreceive (hwired.handle _ rfl) hr hg⟩
  | takes hr hg hsome => exact ⟨hkeep fun n hn => hn, hreceive (hwired.handle _ rfl) hr hg⟩
  | ends hr =>
    have hn := hwired.handle _ rfl
    have hfirst := receive_within (A := A) (O := O) (l := w.around.1) hn
    rw [hr] at hfirst
    exact ⟨hkeep (by rintro n ⟨⟩), hfirst.trans (dropStream_within hn)⟩
  | stores h =>
    obtain ⟨rfl, -⟩ := persistTicks_same h A w.around.1
    exact ⟨hkeep fun n hn => hn, .refl _⟩
  | retries h =>
    obtain ⟨rfl, -⟩ := persistTicks_same h A w.around.1
    exact ⟨hkeep fun n hn => hn, .refl _⟩
  | loses h =>
    obtain ⟨rfl, -⟩ := persistTicks_same h A w.around.1
    exact ⟨hkeep fun n hn => hn, .refl _⟩
  | keeps hd => exact ⟨hkeep fun n hn => hn, .refl _⟩
  | forwards hd hp =>
    obtain ⟨d, -, rfl⟩ := Option.map_eq_some_iff.1 hd
    cases hp
    exact ⟨hkeep fun n hn => hn, .refl _⟩
  | resumes h =>
    rcases h with ⟨hd, rfl⟩ | ⟨d, r, hd, h⟩
    · exact ⟨hkeep fun n hn => hn, .refl _⟩
    · obtain ⟨d, -, rfl⟩ := Option.map_eq_some_iff.1 hd
      cases h
      exact ⟨hkeep fun n hn => hn, .refl _⟩
  | restarts hdue => exact ⟨hkeep (by rintro n ⟨⟩), .refl _⟩

theorem PollGoes.within {stage : PollStage}
    (h : PollGoes V (A.surroundings O) now w instrument interval stage calls l₁ work)
    (hwired : Wired A part (.poll instrument interval stage)) :
    Wired A part work ∧ w.around.1.Within part l₁ := by
  have hpart : A.part (.history instrument interval) = part := hwired.subject _ rfl
  cases h with
  | stops h => exact ⟨wired_ended, .refl _⟩
  | asks h hf =>
    cases hf
    refine ⟨⟨hwired.subject, ?_⟩, fun part' hne => .of_ask (hpart ▸ hne) _ _ _⟩
    rintro n ⟨⟩
    exact (congrArg Prod.fst (Nat.unpair_pair _ _)).trans hpart
  | passes h =>
    obtain rfl := h.ledger
    refine ⟨⟨hwired.subject, ?_⟩, .refl _⟩
    intro n hn'
    cases h <;> cases hn'
  | pauses => exact ⟨⟨hwired.subject, by rintro n ⟨⟩⟩, .refl _⟩
  | resumes hdue => exact ⟨⟨hwired.subject, by rintro n ⟨⟩⟩, .refl _⟩

/-- A job goes on having to do with its part only, and leaves the other parts as they are. -/
theorem WorkGoes.within (h : WorkGoes V (A.surroundings O) now w work calls l₁ work')
    (hwired : Wired A part work) : Wired A part work' ∧ w.around.1.Within part l₁ := by
  cases h with
  | pass h =>
    obtain rfl := h.ledger
    refine ⟨⟨hwired.subject, ?_⟩, .refl _⟩
    intro n hn'
    cases h <;> cases hn'
  | poll h => exact h.within hwired
  | stream h => exact h.within hwired

theorem Halts.within (h : Halts (A.surroundings O) l work calls l₁) (hwired : Wired A part work) :
    l.Within part l₁ := by
  cases h with
  | poll | pause => exact .refl l
  | receive => exact dropStream_within (hwired.handle _ rfl)

end World

end

end Collector
end MarketFeed
