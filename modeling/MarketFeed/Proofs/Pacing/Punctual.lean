import Mathlib.Logic.Relation
import MarketFeed.Proofs.Pacing.Schedule

/-!
# MarketFeed.Proofs.Pacing.Punctual

Callers at a gate, on a clock whose sleepers wake at the very time for which they sleep.

* `Line`, `Goes` — the callers at a gate, one pass of the loop or one other event after another;
  time passes only while nobody can go on, and never beyond the time at which somebody wakes.
* `Listed`, `OnTime`, `Tried` — what everything that happens keeps: who has called and who is served
  when, no call is overdue, and how often each caller has tried.
* `Orderly.run` — so all of this holds after any run.
-/

namespace MarketFeed
namespace Punctual

/-! ## Callers in line -/

structure Caller where
  number : Nat
  /-- It only asks for the number of grants in the window. -/
  counts : Bool
  since : Nat
  deriving DecidableEq

def Caller.acquires (c : Caller) : Bool := !c.counts

/-- The callers at a gate, and all that has happened there. -/
structure Line where
  now : Nat
  gate : Gate Caller
  /-- When the caller at the front wakes, if it sleeps. -/
  wakes : Option Nat
  calls : List Caller
  gone : List Caller
  /-- Who passed through the loop, once for each pass. -/
  passes : List Caller
  /-- Who went to sleep, once for each time. -/
  slept : List Caller
  granted : List (Caller × Nat)
  /-- Who was told a number of grants, and when. -/
  answers : List (Caller × Nat × Nat)

namespace Line

def start (l : Limiter) (now : Nat) : Line := ⟨now, .new l, none, [], [], [], [], [], []⟩

/-- Whoever calls next. -/
def caller (s : Line) (counts : Bool) : Caller := ⟨s.calls.length, counts, s.now⟩

def call (s : Line) (counts : Bool) : Line :=
  { s with gate := s.gate.join (s.caller counts), calls := s.calls ++ [s.caller counts] }

def leave (s : Line) (c : Caller) : Line :=
  { s with
    gate := s.gate.leave c
    wakes := if s.gate.queue.head? = some c then none else s.wakes
    gone := s.gone ++ [c] }

/-- The caller at the front has its grant, with what the limiter is then. -/
def grant (s : Line) (c : Caller) (l : Limiter) : Line :=
  { s with
    gate := ⟨l, s.gate.queue.tail⟩
    wakes := none
    passes := s.passes ++ [c]
    granted := s.granted ++ [(c, s.now)] }

/-- The caller at the front has tried in vain. -/
def sleep (s : Line) (c : Caller) (time : Nat) (l : Limiter) : Line :=
  { s with
    gate := { s.gate with limiter := l }
    wakes := some time
    passes := s.passes ++ [c]
    slept := s.slept ++ [c] }

/-- The calls for a grant whose callers have not given up. -/
def remaining (s : Line) : List Caller := s.calls.filter fun c => c.acquires ∧ c ∉ s.gone

def times (s : Line) : List Nat := s.granted.map Prod.snd

/-- When another caller gives up, the one at the front stays there. -/
theorem head?_leave {s : Line} {c : Caller} (h : s.gate.queue.head? ≠ some c) :
    (s.leave c).gate.queue.head? = s.gate.queue.head? := by
  cases hqueue : s.gate.queue with
  | nil => simp [leave, Gate.leave, hqueue]
  | cons first rest =>
    have hne : first ≠ c := fun heq => h (by rw [hqueue, heq]; rfl)
    simp [leave, Gate.leave, hqueue, hne]

/-- The number of grants in a window of this length. -/
def inWindow (s : Line) (per : Nat) : Nat :=
  (s.times.filter fun g => s.now < g + per ∧ g ≤ s.now).length

/-- The schedule for these calls alone. -/
def scheduled (s : Line) (rate per : Nat) : List Nat :=
  schedule rate per (s.remaining.map Caller.since)

end Line

/-- What can happen next. -/
inductive Goes (s : Line) : Line → Prop where
  | calls (counts : Bool) : Goes s (s.call counts)
  | leaves (c : Caller) (hc : c ∈ s.gate.queue) : Goes s (s.leave c)
  | passes {c : Caller} {l : Limiter} (hfront : s.gate.queue.head? = some c)
      (hc : c.counts = false) (hawake : ∀ d, s.wakes = some d → d = s.now)
      (h : s.gate.limiter.acquire s.now = (.granted, l)) :
      Goes s (s.grant c l)
  | sleeps {c : Caller} {time : Nat} {l : Limiter} (hfront : s.gate.queue.head? = some c)
      (hc : c.counts = false) (hawake : ∀ d, s.wakes = some d → d = s.now)
      (h : s.gate.limiter.acquire s.now = (.notBefore time, l)) :
      Goes s (s.sleep c time l)
  | counts {c : Caller} {n : Nat} {g : Gate Caller} (hc : c.counts = true)
      (h : s.gate.count? s.now c = some (n, g)) :
      Goes s { s with gate := g, answers := s.answers ++ [(c, s.now, n)] }
  | waits (time : Nat) (hlt : s.now < time)
      (hrest : ∀ c, s.gate.queue.head? = some c → ∃ d, s.wakes = some d ∧ time ≤ d) :
      Goes s { s with now := time }

/-- One event after another. -/
abbrev Run : Line → Line → Prop := Relation.ReflTransGen Goes

variable {s s' : Line}

/-- What happens at the gate, or how time passes. -/
theorem Goes.gate (h : Goes s s') :
    (∃ new, s.gate.Goes s.now new s'.gate ∧ s'.now = s.now ∧ s'.times = s.times ++ new) ∨
      (s.now ≤ s'.now ∧ s'.gate = s.gate ∧ s'.times = s.times) := by
  cases h with
  | calls counts => exact .inl ⟨[], .joins _, rfl, (List.append_nil _).symm⟩
  | leaves c _ => exact .inl ⟨[], .leaves c, rfl, (List.append_nil _).symm⟩
  | @passes c l hfront _ _ h =>
    have hpass : s.gate.acquire? s.now c = some ⟨l, s.gate.queue.tail⟩ := by
      rw [Gate.acquire?, if_pos hfront, h]
    exact .inl ⟨[s.now], .passes c hpass, rfl, List.map_append⟩
  | sleeps hfront _ _ h => exact .inl ⟨[], .sleeps _ hfront h, rfl, (List.append_nil _).symm⟩
  | counts _ h => exact .inl ⟨[], .counts _ h, rfl, (List.append_nil _).symm⟩
  | waits time hlt _ => exact .inr ⟨Nat.le_of_lt hlt, rfl, rfl⟩

theorem Goes.bounds (h : Goes s s') :
    s'.gate.limiter.rate = s.gate.limiter.rate ∧ s'.gate.limiter.per = s.gate.limiter.per := by
  rcases h.gate with ⟨new, hgate, -⟩ | ⟨-, hgate, -⟩
  · exact hgate.bounds
  · rw [hgate]
    exact ⟨rfl, rfl⟩

theorem Goes.accounts (h : Goes s s') (ha : s.gate.limiter.Accounts s.times s.now) :
    s'.gate.limiter.Accounts s'.times s'.now := by
  rcases h.gate with ⟨new, hgate, hnow, htimes⟩ | ⟨hle, hgate, htimes⟩
  · rw [hnow, htimes]
    exact hgate.accounts ha
  · rw [hgate, htimes]
    exact ha.later hle

/-! ## Who is served -/

/-- Everyone in line has called and is there once, and those for a grant are served in the order of
their calls. -/
structure Listed (s : Line) : Prop where
  numbered : ∀ c ∈ s.calls, c.number < s.calls.length
  past : ∀ c ∈ s.calls, c.since ≤ s.now
  ordered : s.calls.Pairwise fun c d => c.since ≤ d.since
  once : s.calls.Nodup
  gone : ∀ c ∈ s.gone, c ∈ s.calls
  waiting : ∀ c ∈ s.gate.queue, c ∈ s.calls
  single : s.gate.queue.Nodup
  inTurn : s.granted.map Prod.fst ++ s.gate.queue.filter Caller.acquires = s.remaining

namespace Listed

theorem caller_not_mem (h : Listed s) (counts : Bool) : s.caller counts ∉ s.calls :=
  fun hmem => Nat.lt_irrefl _ (h.numbered _ hmem)

theorem call (h : Listed s) (counts : Bool) : Listed (s.call counts) where
  numbered c hc := by
    rw [Line.call, List.length_append, List.length_singleton]
    rcases List.mem_append.1 hc with hc | hc
    · exact Nat.lt_succ_of_lt (h.numbered c hc)
    · rw [List.mem_singleton.1 hc]
      exact Nat.lt_succ_self _
  past c hc := by
    rcases List.mem_append.1 hc with hc | hc
    · exact h.past c hc
    · rw [List.mem_singleton.1 hc]
      exact Nat.le_refl _
  ordered := List.pairwise_append.2 ⟨h.ordered, List.pairwise_singleton _ _, fun c hc d hd => by
    rw [List.mem_singleton.1 hd]
    exact h.past c hc⟩
  once := List.nodup_append.2 ⟨h.once, List.nodup_singleton _, fun c hc d hd heq =>
    h.caller_not_mem counts (List.mem_singleton.1 hd ▸ heq ▸ hc)⟩
  gone c hc := List.mem_append_left _ (h.gone c hc)
  waiting c hc := by
    rcases List.mem_append.1 hc with hc | hc
    · exact List.mem_append_left _ (h.waiting c hc)
    · exact List.mem_append_right _ hc
  single := List.nodup_append.2 ⟨h.single, List.nodup_singleton _, fun c hc d hd heq =>
    h.caller_not_mem counts (List.mem_singleton.1 hd ▸ heq ▸ h.waiting c hc)⟩
  inTurn := by
    have hgone : s.caller counts ∉ s.gone := fun hmem => h.caller_not_mem counts (h.gone _ hmem)
    have hlast : [s.caller counts].filter (fun c => decide (c.acquires ∧ c ∉ s.gone)) =
        [s.caller counts].filter Caller.acquires := by
      simp [List.filter_singleton, hgone]
    have hremaining : (s.call counts).remaining =
        s.remaining ++ [s.caller counts].filter Caller.acquires := by
      rw [← hlast]
      exact List.filter_append _ _
    rw [hremaining, ← h.inTurn, List.append_assoc]
    exact congrArg _ (List.filter_append _ _)

theorem leave (h : Listed s) {c : Caller} (hc : c ∈ s.gate.queue) : Listed (s.leave c) where
  numbered := h.numbered
  past := h.past
  ordered := h.ordered
  once := h.once
  gone d hd := by
    rcases List.mem_append.1 hd with hd | hd
    · exact h.gone d hd
    · rw [List.mem_singleton.1 hd]
      exact h.waiting c hc
  waiting d hd := h.waiting d (List.mem_of_mem_filter hd)
  single := h.single.filter _
  inTurn := by
    have hserved : c ∉ s.granted.map Prod.fst := by
      intro hmem
      have hnodup : s.remaining.Nodup := h.once.filter _
      have hacquires : c.acquires = true := by
        have hremaining : c ∈ s.remaining := h.inTurn ▸ List.mem_append_left _ hmem
        simpa using (of_decide_eq_true (List.mem_filter.1 hremaining).2).1
      rw [← h.inTurn, List.nodup_append] at hnodup
      exact hnodup.2.2 c hmem c (List.mem_filter.2 ⟨hc, hacquires⟩) rfl
    have hremaining : (s.leave c).remaining = s.remaining.filter (· ≠ c) := by
      rw [Line.remaining, Line.remaining, List.filter_filter]
      refine List.filter_congr fun d _ => ?_
      simp only [Line.leave, List.mem_append, List.mem_singleton]
      grind
    have hothers : (s.granted.map Prod.fst).filter (· ≠ c) = s.granted.map Prod.fst := by
      rw [List.filter_eq_self]
      intro d hd
      exact decide_eq_true fun heq => hserved (heq ▸ hd)
    rw [hremaining, ← h.inTurn, List.filter_append, hothers]
    refine congrArg _ ?_
    simp only [Line.leave, Gate.leave, List.filter_filter]
    exact List.filter_congr fun d _ => Bool.and_comm _ _

/-- The caller at the front is served, or has its answer. -/
theorem next (h : Listed s) {c : Caller} {rest : List Caller} (hqueue : s.gate.queue = c :: rest)
    {t : Line} (hnow : t.now = s.now) (hcalls : t.calls = s.calls) (hgone : t.gone = s.gone)
    (hrest : t.gate.queue = rest)
    (hserved : t.granted.map Prod.fst = s.granted.map Prod.fst ++ [c].filter Caller.acquires) :
    Listed t where
  numbered := hcalls ▸ h.numbered
  past := hcalls ▸ hnow ▸ h.past
  ordered := hcalls ▸ h.ordered
  once := hcalls ▸ h.once
  gone := hcalls ▸ hgone ▸ h.gone
  waiting d hd := hcalls ▸ h.waiting d (hqueue ▸ List.mem_cons_of_mem c (hrest ▸ hd))
  single := hrest ▸ (List.nodup_cons.1 (hqueue ▸ h.single)).2
  inTurn := by
    have hremaining : t.remaining = s.remaining := by
      rw [Line.remaining, Line.remaining, hcalls, hgone]
    rw [hremaining, ← h.inTurn, hserved, hrest, hqueue, List.append_assoc, ← List.filter_append]
    rfl

theorem goes (h : Listed s) (hgoes : Goes s s') : Listed s' := by
  cases hgoes with
  | calls counts => exact h.call counts
  | leaves c hc => exact h.leave hc
  | passes hfront hc _ _ =>
    obtain ⟨rest, hqueue⟩ := List.head?_eq_some_iff.1 hfront
    refine h.next hqueue rfl rfl rfl (congrArg List.tail hqueue) ?_
    simp [Line.grant, Caller.acquires, hc]
  | sleeps _ _ _ _ => exact { h with }
  | counts hc hcount =>
    obtain ⟨hfront, -, rfl⟩ := Gate.count?_eq_some hcount
    obtain ⟨rest, hqueue⟩ := List.head?_eq_some_iff.1 hfront
    refine h.next hqueue rfl rfl rfl (congrArg List.tail hqueue) ?_
    simp [Caller.acquires, hc]
  | waits time hlt _ =>
    exact { h with past := fun c hc => Nat.le_trans (h.past c hc) (Nat.le_of_lt hlt) }

end Listed

/-! ## When it is served -/

/-- Who sleeps is at the front of a full window, and sleeps until that loses its oldest grant. -/
structure Asleep (s : Line) (d : Nat) : Prop where
  later : s.now ≤ d
  front : ∃ c, s.gate.queue.head? = some c ∧ c.counts = false
  full : ∃ oldest rest, s.gate.limiter.recent = oldest :: rest ∧
    d = oldest + s.gate.limiter.per ∧ s.gate.limiter.rate ≤ s.gate.limiter.recent.length

/-- The grants so far are those of the schedule, and no call is overdue. -/
structure OnTime (s : Line) : Prop where
  accounts : s.gate.limiter.Accounts s.times s.now
  asleep : ∀ d, s.wakes = some d → Asleep s d
  onSchedule : s.times = schedule s.gate.limiter.rate s.gate.limiter.per
    (s.granted.map fun p => p.1.since)
  due : ∀ c ∈ s.gate.queue, c.counts = false →
    s.now ≤ earliest s.gate.limiter.rate s.gate.limiter.per s.times c.since

namespace OnTime

/-- Who sleeps has its grant as soon as it wakes. -/
theorem granted_awake (h : OnTime s) (hasleep : s.wakes = some s.now) :
    ∃ l, s.gate.limiter.acquire s.now = (.granted, l) := by
  obtain ⟨oldest, rest, hrecent, hnow, -⟩ := (h.asleep _ hasleep).full
  rw [hnow]
  exact Limiter.acquire_of_due hrecent h.accounts.few

/-- Nobody sleeps in front of a caller that does not. -/
theorem awake (h : OnTime s) {c : Caller} (hfront : s.gate.queue.head? = some c)
    (hc : c.counts = true) : s.wakes = none := by
  cases hwakes : s.wakes with
  | none => rfl
  | some d =>
    obtain ⟨c', hfront', hc'⟩ := (h.asleep d hwakes).front
    rw [hfront] at hfront'
    cases hfront'
    rw [hc] at hc'
    cases hc'

theorem call (h : OnTime s) (counts : Bool) : OnTime (s.call counts) where
  accounts := (Goes.calls counts).accounts h.accounts
  asleep d hd := by
    obtain ⟨c, hfront, hc⟩ := (h.asleep d hd).front
    refine ⟨(h.asleep d hd).later, ⟨c, ?_, hc⟩, (h.asleep d hd).full⟩
    simp [Line.call, Gate.join, hfront]
  onSchedule := h.onSchedule
  due c hc hacquires := by
    rcases List.mem_append.1 hc with hc | hc
    · exact h.due c hc hacquires
    · rw [List.mem_singleton.1 hc]
      exact Nat.le_max_left _ _

theorem leave (h : OnTime s) {c : Caller} (hc : c ∈ s.gate.queue) : OnTime (s.leave c) where
  accounts := (Goes.leaves c hc).accounts h.accounts
  asleep d hd := by
    by_cases hfront : s.gate.queue.head? = some c
    · rw [Line.leave, if_pos hfront] at hd
      cases hd
    · rw [Line.leave, if_neg hfront] at hd
      obtain ⟨c', hfront', hc'⟩ := (h.asleep d hd).front
      exact ⟨(h.asleep d hd).later, ⟨c', (Line.head?_leave hfront).trans hfront', hc'⟩,
        (h.asleep d hd).full⟩
  onSchedule := h.onSchedule
  due d hd := h.due d (List.mem_of_mem_filter hd)

theorem grant (h : OnTime s) (hlisted : Listed s) {c : Caller} {l : Limiter}
    (hfront : s.gate.queue.head? = some c) (hc : c.counts = false)
    (hawake : ∀ d, s.wakes = some d → d = s.now)
    (hacquire : s.gate.limiter.acquire s.now = (.granted, l)) :
    OnTime (s.grant c l) := by
  have hgoes := Goes.passes hfront hc hawake hacquire
  have hmem : c ∈ s.gate.queue := List.mem_of_mem_head? hfront
  obtain ⟨hrate, hper⟩ := hgoes.bounds
  -- it is not overdue, and the limiter does not grant it before its time
  have hnow : s.now = earliest s.gate.limiter.rate s.gate.limiter.per s.times c.since :=
    Nat.le_antisymm (h.due c hmem hc)
      (h.accounts.earliest_le hacquire (hlisted.past c (hlisted.waiting c hmem)))
  have htimes : (s.grant c l).times = s.times ++ [s.now] := List.map_append
  refine ⟨hgoes.accounts h.accounts, (fun _ hd => by cases hd), ?_, ?_⟩
  · rw [hrate, hper, htimes, Line.grant, List.map_append, List.map_singleton, schedule_concat,
      ← h.onSchedule, ← hnow]
  · intro d _ _
    rw [htimes]
    exact le_earliest_concat _ _ _

theorem sleep (h : OnTime s) {c : Caller} {time : Nat} {l : Limiter}
    (hfront : s.gate.queue.head? = some c) (hc : c.counts = false)
    (hawake : ∀ d, s.wakes = some d → d = s.now)
    (hacquire : s.gate.limiter.acquire s.now = (.notBefore time, l)) :
    OnTime (s.sleep c time l) := by
  have hgoes := Goes.sleeps hfront hc hawake hacquire
  obtain ⟨hfull, rfl⟩ := Limiter.acquire_notBefore hacquire
  obtain ⟨oldest, rest, hrecent, htime, hlt⟩ := Limiter.acquire_notBefore_time hacquire
  refine ⟨hgoes.accounts h.accounts, ?_, h.onSchedule, h.due⟩
  rintro d hd
  cases hd
  exact ⟨Nat.le_of_lt hlt, ⟨c, hfront, hc⟩, oldest, rest, hrecent, htime, hfull⟩

theorem count (h : OnTime s) {c : Caller} {n : Nat} {g : Gate Caller} (hc : c.counts = true)
    (hcount : s.gate.count? s.now c = some (n, g)) :
    OnTime { s with gate := g, answers := s.answers ++ [(c, s.now, n)] } := by
  have hgoes := Goes.counts hc hcount
  obtain ⟨hfront, -, rfl⟩ := Gate.count?_eq_some hcount
  refine ⟨hgoes.accounts h.accounts, ?_, h.onSchedule,
    fun d hd => h.due d (List.mem_of_mem_tail hd)⟩
  intro d hd
  rw [h.awake hfront hc] at hd
  cases hd

theorem wait (h : OnTime s) {time : Nat} (hlt : s.now < time)
    (hrest : ∀ c, s.gate.queue.head? = some c → ∃ d, s.wakes = some d ∧ time ≤ d) :
    OnTime { s with now := time } := by
  have hgoes := Goes.waits time hlt hrest
  refine ⟨hgoes.accounts h.accounts, ?_, h.onSchedule, ?_⟩
  · intro d hd
    obtain ⟨-, ⟨c, hfront, hc⟩, hfull⟩ := h.asleep d hd
    obtain ⟨d', hd', hle⟩ := hrest c hfront
    rw [hd] at hd'
    cases hd'
    exact ⟨hle, ⟨c, hfront, hc⟩, hfull⟩
  · -- time passes only while the window is full, and so until somebody is due at most
    intro c hc _
    obtain ⟨first, rest, hqueue⟩ := List.exists_cons_of_ne_nil (List.ne_nil_of_mem hc)
    obtain ⟨d, hd, hle⟩ := hrest first (by rw [hqueue]; rfl)
    obtain ⟨oldest, rest, hrecent, rfl, hfull⟩ := (h.asleep d hd).full
    exact Nat.le_trans hle (h.accounts.le_earliest hrecent hfull)

theorem goes (h : OnTime s) (hlisted : Listed s) (hgoes : Goes s s') : OnTime s' := by
  cases hgoes with
  | calls counts => exact h.call counts
  | leaves c hc => exact h.leave hc
  | passes hfront hc hawake hacquire => exact h.grant hlisted hfront hc hawake hacquire
  | sleeps hfront hc hawake hacquire => exact h.sleep hfront hc hawake hacquire
  | counts hc hcount => exact h.count hc hcount
  | waits time hlt hrest => exact h.wait hlt hrest

end OnTime

/-! ## How often it tries -/

/-- A caller tries for the first time at the front, and a second time after it has slept. -/
structure Tried (s : Line) : Prop where
  known : ∀ c ∈ s.passes, c ∈ s.calls
  slept : ∀ c, s.slept.count c ≤ s.passes.count c
  bounded : ∀ c, s.passes.count c ≤ 2 ∧ s.slept.count c ≤ 1
  fresh : ∀ c ∈ s.gate.queue, s.wakes = none ∨ s.gate.queue.head? ≠ some c → c ∉ s.passes
  once : ∀ c, s.wakes ≠ none → s.gate.queue.head? = some c → s.passes.count c ≤ 1

namespace Tried

theorem call (h : Tried s) (hlisted : Listed s) (hontime : OnTime s) (counts : Bool) :
    Tried (s.call counts) where
  known c hc := List.mem_append_left _ (h.known c hc)
  slept := h.slept
  bounded := h.bounded
  fresh c hc hnot := by
    rcases List.mem_append.1 hc with hc | hc
    · refine h.fresh c hc (hnot.imp_right fun hne hfront => hne ?_)
      simp [Line.call, Gate.join, hfront]
    · rw [List.mem_singleton.1 hc]
      exact fun hmem => hlisted.caller_not_mem counts (h.known _ hmem)
  once c hasleep hfront := by
    obtain ⟨d, hd⟩ := Option.ne_none_iff_exists'.1 hasleep
    obtain ⟨c', hfront', -⟩ := (hontime.asleep d hd).front
    have hsame : (s.call counts).gate.queue.head? = some c' := by
      simp [Line.call, Gate.join, hfront']
    rw [hsame] at hfront
    cases hfront
    exact h.once c hasleep hfront'

theorem leave (h : Tried s) (c : Caller) : Tried (s.leave c) := by
  by_cases hfront : s.gate.queue.head? = some c
  · have hwakes : (s.leave c).wakes = none := if_pos hfront
    exact
      { h with
        fresh := fun d hd _ => h.fresh d (List.mem_of_mem_filter hd) (.inr fun hfront' => by
          rw [hfront] at hfront'
          cases hfront'
          simp [Line.leave, Gate.leave] at hd)
        once := fun _ hasleep => absurd hwakes hasleep }
  · have hwakes : (s.leave c).wakes = s.wakes := if_neg hfront
    have hsame := Line.head?_leave hfront
    exact
      { h with
        fresh := fun d hd hnot => h.fresh d (List.mem_of_mem_filter hd) (hwakes ▸ hsame ▸ hnot)
        once := fun d hasleep hd => h.once d (hwakes ▸ hasleep) (hsame ▸ hd) }

theorem grant (h : Tried s) (hlisted : Listed s) {c : Caller} (l : Limiter)
    (hfront : s.gate.queue.head? = some c) : Tried (s.grant c l) := by
  obtain ⟨rest, hqueue⟩ := List.head?_eq_some_iff.1 hfront
  have hmem : c ∈ s.gate.queue := List.mem_of_mem_head? hfront
  have hcount : s.passes.count c ≤ 1 := by
    by_cases hwakes : s.wakes = none
    · rw [List.count_eq_zero_of_not_mem (h.fresh c hmem (.inl hwakes))]
      exact Nat.zero_le 1
    · exact h.once c hwakes hfront
  refine ⟨?_, ?_, ?_, ?_, fun _ hasleep => absurd rfl hasleep⟩
  · intro d hd
    rcases List.mem_append.1 hd with hd | hd
    · exact h.known d hd
    · exact List.mem_singleton.1 hd ▸ hlisted.waiting c hmem
  · intro d
    exact Nat.le_trans (h.slept d) ((List.sublist_append_left _ _).count_le d)
  · intro d
    refine ⟨?_, (h.bounded d).2⟩
    simp only [Line.grant, List.count_append, List.count_singleton]
    by_cases heq : c = d
    · subst heq
      simpa using hcount
    · simpa [heq] using (h.bounded d).1
  · intro d hd _
    have hrest : d ∈ rest := by simpa [Line.grant, hqueue] using hd
    have hne : d ≠ c := by
      rintro rfl
      exact (List.nodup_cons.1 (hqueue ▸ hlisted.single)).1 hrest
    have hfresh : d ∉ s.passes := by
      refine h.fresh d (hqueue ▸ List.mem_cons_of_mem c hrest) (.inr fun hfront' => ?_)
      rw [hfront] at hfront'
      exact hne (Option.some.inj hfront').symm
    simp [Line.grant, hfresh, hne]

/-- Only who has not slept yet has to. -/
theorem sleep (h : Tried s) (hlisted : Listed s) (hawake : s.wakes = none) {c : Caller}
    {time : Nat} {l : Limiter} (hfront : s.gate.queue.head? = some c) :
    Tried (s.sleep c time l) := by
  have hmem : c ∈ s.gate.queue := List.mem_of_mem_head? hfront
  have hfresh : s.passes.count c = 0 :=
    List.count_eq_zero_of_not_mem (h.fresh c hmem (.inl hawake))
  refine ⟨?_, ?_, ?_, ?_, ?_⟩
  · intro d hd
    rcases List.mem_append.1 hd with hd | hd
    · exact h.known d hd
    · exact List.mem_singleton.1 hd ▸ hlisted.waiting c hmem
  · intro d
    simp only [Line.sleep, List.count_append]
    exact Nat.add_le_add_right (h.slept d) _
  · intro d
    have hslept := h.slept d
    have hbounded := h.bounded d
    simp only [Line.sleep, List.count_append, List.count_singleton]
    by_cases heq : c = d
    · subst heq
      simp only [beq_self_eq_true, if_true]
      omega
    · simpa [heq] using hbounded
  · intro d hd hnot
    have hne : d ≠ c := by
      rintro rfl
      rcases hnot with hnone | hnot
      · cases hnone
      · exact hnot hfront
    simp [Line.sleep, h.fresh d hd (.inl hawake), hne]
  · intro d _ hfront'
    obtain rfl : c = d := by
      have hsame : s.gate.queue.head? = some d := hfront'
      rw [hfront] at hsame
      exact Option.some.inj hsame
    simp [Line.sleep, List.count_append, hfresh]

theorem goes (h : Tried s) (hlisted : Listed s) (hontime : OnTime s) (hgoes : Goes s s') :
    Tried s' := by
  cases hgoes with
  | calls counts => exact h.call hlisted hontime counts
  | leaves c _ => exact h.leave c
  | passes hfront _ _ _ => exact h.grant hlisted _ hfront
  | sleeps hfront _ hawake hacquire =>
    refine h.sleep hlisted ?_ hfront
    cases hwakes : s.wakes with
    | none => rfl
    | some d =>
      -- who wakes at its time has its grant, and does not sleep again
      obtain ⟨l, hgranted⟩ := hontime.granted_awake (hawake d hwakes ▸ hwakes)
      rw [hacquire] at hgranted
      cases hgranted
  | counts hc hcount =>
    obtain ⟨hfront, -, rfl⟩ := Gate.count?_eq_some hcount
    have hwakes := hontime.awake hfront hc
    exact
      { h with
        fresh := fun d hd _ => h.fresh d (List.mem_of_mem_tail hd) (.inl hwakes)
        once := fun d hasleep => absurd hwakes hasleep }
  | waits time hlt _ => exact { h with }

end Tried

/-! ## Runs -/

/-- What everything that happens keeps. -/
structure Orderly (s : Line) : Prop where
  listed : Listed s
  onTime : OnTime s
  tried : Tried s

theorem Orderly.start {l : Limiter} (h : l.recent = []) (now : Nat) : Orderly (.start l now) where
  listed := by constructor <;> simp [Line.start, Gate.new, Line.remaining]
  onTime := ⟨.new h, nofun, rfl, nofun⟩
  tried := by constructor <;> simp [Line.start, Gate.new]

theorem Orderly.goes (h : Orderly s) (hgoes : Goes s s') : Orderly s' :=
  ⟨h.listed.goes hgoes, h.onTime.goes h.listed hgoes, h.tried.goes h.listed h.onTime hgoes⟩

theorem Orderly.run (h : Orderly s) (hrun : Run s s') : Orderly s' := by
  induction hrun with
  | refl => exact h
  | tail _ hgoes ih => exact ih.goes hgoes

theorem Run.bounds (h : Run s s') :
    s'.gate.limiter.rate = s.gate.limiter.rate ∧ s'.gate.limiter.per = s.gate.limiter.per := by
  induction h with
  | refl => exact ⟨rfl, rfl⟩
  | tail _ hgoes ih => exact ⟨hgoes.bounds.1.trans ih.1, hgoes.bounds.2.trans ih.2⟩

end Punctual
end MarketFeed
