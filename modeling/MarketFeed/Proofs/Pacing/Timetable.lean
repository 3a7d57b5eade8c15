import MarketFeed.Proofs.Pacing.Front
import MarketFeed.Proofs.Pacing.Punctual

/-!
# MarketFeed.Proofs.Pacing.Timetable

On a clock whose sleepers wake in time, every call has its grant at the earliest time that the
window allows, and neither counts nor callers that give up delay it.

* `Orderly.scheduled_eq` — the grants so far begin the schedule, and nothing else of it is past.
* `Orderly.empties` — everyone in line can be served.
* `Orderly.answers`, `Soon` — what a caller is told that counts, and when.
* `grants_on_schedule` — all of this for any limiter.
-/

namespace MarketFeed
namespace Punctual

variable {s s' t t' : Line} {c : Caller} {rest : List Caller}

namespace Orderly

/-! ## The schedule -/

/-- The grants so far begin the schedule, and the rest of it is not yet past. -/
theorem scheduled_eq (h : Orderly s) : ∃ rest,
    s.scheduled s.gate.limiter.rate s.gate.limiter.per = s.times ++ rest ∧
      ∀ time ∈ rest, s.now ≤ time := by
  have hserved : (s.granted.map Prod.fst).map Caller.since = s.granted.map fun p => p.1.since := by
    rw [List.map_map]
    rfl
  have hdue : ∀ since ∈ (s.gate.queue.filter Caller.acquires).map Caller.since,
      s.now ≤ earliest s.gate.limiter.rate s.gate.limiter.per
        (schedule s.gate.limiter.rate s.gate.limiter.per
          (s.granted.map fun p => p.1.since)) since := by
    intro since hsince
    obtain ⟨c, hc, rfl⟩ := List.mem_map.1 hsince
    obtain ⟨hmem, hacquires⟩ := List.mem_filter.1 hc
    rw [← h.onTime.onSchedule]
    exact h.onTime.due c hmem (by simpa [Caller.acquires] using hacquires)
  obtain ⟨rest, hsplit, hrest⟩ := schedule_append hdue
  refine ⟨rest, ?_, hrest⟩
  rw [Line.scheduled, ← h.listed.inTurn, List.map_append, hserved, hsplit, ← h.onTime.onSchedule]

theorem granted_prefix (h : Orderly s) :
    s.granted <+: s.remaining.zip (s.scheduled s.gate.limiter.rate s.gate.limiter.per) := by
  obtain ⟨rest, hscheduled, -⟩ := h.scheduled_eq
  have hlength : (s.granted.map Prod.fst).length = s.times.length := by
    rw [List.length_map, Line.times, List.length_map]
  rw [hscheduled, ← h.listed.inTurn, List.zip_append hlength]
  exact ⟨_, congrArg (· ++ _) (List.zip_of_prod rfl rfl)⟩

theorem not_overdue (h : Orderly s) :
    ∀ time ∈ (s.scheduled s.gate.limiter.rate s.gate.limiter.per).drop s.granted.length,
      s.now ≤ time := by
  obtain ⟨rest, hscheduled, hrest⟩ := h.scheduled_eq
  have hlength : s.granted.length = s.times.length := (List.length_map _).symm
  rwa [hscheduled, hlength, List.drop_left]

/-! ## Everyone is served -/

/-- Who sleeps at the front can have its grant. -/
theorem advances_asleep (h : Orderly s) {d : Nat} (hd : s.wakes = some d)
    (hqueue : s.gate.queue = c :: rest) : ∃ s', Run s s' ∧ s'.calls = s.calls ∧
      s'.gone = s.gone ∧ s'.gate.queue = rest := by
  obtain ⟨hle, ⟨c', hfront, hc⟩, -⟩ := h.onTime.asleep d hd
  obtain ⟨w, hrun, hw, hnow, hcalls, hgone, hgate⟩ : ∃ w, Run s w ∧ w.wakes = some d ∧
      w.now = d ∧ w.calls = s.calls ∧ w.gone = s.gone ∧ w.gate = s.gate := by
    rcases Nat.eq_or_lt_of_le hle with heq | hlt
    · exact ⟨s, .refl, hd, heq, rfl, rfl, rfl⟩
    · have hwaits := Goes.waits d hlt fun _ _ => ⟨d, hd, Nat.le_refl d⟩
      exact ⟨_, .single hwaits, hd, rfl, rfl, rfl, rfl⟩
  obtain ⟨l, hgranted⟩ := (h.run hrun).onTime.granted_awake (hnow ▸ hw)
  have hgrants : Goes w (w.grant c' l) := by
    refine .passes (hgate ▸ hfront) hc (fun d' hd' => ?_) hgranted
    rw [hw] at hd'
    cases hd'
    exact hnow.symm
  refine ⟨_, hrun.tail hgrants, hcalls, hgone, ?_⟩
  simp [Line.grant, hgate, hqueue]

/-- Whoever is at the front can have its grant or its count. -/
theorem advances (h : Orderly s) (hqueue : s.gate.queue = c :: rest) : ∃ s', Run s s' ∧
    s'.calls = s.calls ∧ s'.gone = s.gone ∧ s'.gate.queue = rest := by
  have hfront : s.gate.queue.head? = some c := by rw [hqueue]; rfl
  cases hc : c.counts with
  | true =>
    refine ⟨_, .single (.counts hc (Gate.count?_of_front hfront)), rfl, rfl, ?_⟩
    simp [hqueue]
  | false =>
    cases hd : s.wakes with
    | some d => exact h.advances_asleep hd hqueue
    | none =>
      have hawake (d : Nat) (h : s.wakes = some d) : d = s.now := by
        rw [hd] at h
        cases h
      rcases hacquire : s.gate.limiter.acquire s.now with ⟨_ | time, l⟩
      · refine ⟨_, .single (.passes hfront hc hawake hacquire), rfl, rfl, ?_⟩
        simp [Line.grant, hqueue]
      · have hsleeps := Goes.sleeps hfront hc hawake hacquire
        obtain ⟨s', hrun, hcalls, hgone, hrest⟩ :=
          (h.goes hsleeps).advances_asleep rfl hqueue
        exact ⟨s', hrun.head hsleeps, hcalls, hgone, hrest⟩

/-- Everyone in line can be served when nobody else calls and nobody gives up. -/
theorem empties (h : Orderly s) : ∃ s', Run s s' ∧ s'.calls = s.calls ∧ s'.gone = s.gone ∧
    s'.gate.queue = [] := by
  induction hqueue : s.gate.queue generalizing s with
  | nil => exact ⟨s, .refl, rfl, rfl, hqueue⟩
  | cons c rest ih =>
    obtain ⟨s₁, hrun, hcalls, hgone, hrest⟩ := h.advances hqueue
    obtain ⟨s₂, hrun', hcalls', hgone', hempty⟩ := ih (h.run hrun) hrest
    exact ⟨s₂, hrun.trans hrun', hcalls'.trans hcalls, hgone'.trans hgone, hempty⟩

/-- Then the grants are all those of the schedule. -/
theorem granted_of_empty (h : Orderly s) (hempty : s.gate.queue = []) :
    s.granted = s.remaining.zip (s.scheduled s.gate.limiter.rate s.gate.limiter.per) := by
  have hlength := congrArg List.length h.listed.inTurn
  refine h.granted_prefix.eq_of_length ?_
  simp only [hempty, List.filter_nil, List.append_nil, List.length_map] at hlength
  simp [Line.scheduled, hlength]

/-! ## Counting -/

/-- A caller that counts is told the number of grants in the window. -/
theorem answers (h : Orderly s) (hgoes : Goes s s') : s'.answers = s.answers ∨
    ∃ c ∈ s.gate.queue, s'.answers = s.answers ++ [(c, s.now, s.inWindow s.gate.limiter.per)] := by
  cases hgoes with
  | calls _ => exact .inl rfl
  | leaves _ _ => exact .inl rfl
  | passes _ _ _ _ => exact .inl rfl
  | sleeps _ _ _ _ => exact .inl rfl
  | @counts c _ _ hc hcount =>
    obtain ⟨hfront, rfl, -⟩ := Gate.count?_eq_some hcount
    refine .inr ⟨c, List.mem_of_mem_head? hfront, ?_⟩
    rw [Line.inWindow, ← h.onTime.accounts.counted]
    rfl
  | waits _ _ _ => exact .inl rfl

end Orderly

/-- A caller that counts, and came when nobody waited for a grant, has its answer for that time or
will have it before any time has passed, unless it gives up. -/
structure Next (s : Line) (c : Caller) (t : Line) : Prop where
  queued : ∃ front rest, t.gate.queue = front ++ c :: rest ∧ ∀ x ∈ front, x.counts = true
  awake : t.wakes = none
  now : t.now = s.now
  times : t.times = s.times
  per : t.gate.limiter.per = s.gate.limiter.per

/-- It has given up, or has its answer, or is next. -/
def Soon (s : Line) (c : Caller) (t : Line) : Prop :=
  c ∈ t.gone ∨ (c, s.now, s.inWindow s.gate.limiter.per) ∈ t.answers ∨ Next s c t

theorem Next.goes (h : Next s c t) (hc : c.counts = true) (ht : Orderly t) (hgoes : Goes t t') :
    Soon s c t' := by
  obtain ⟨⟨front, rest, hqueue, hfront⟩, hawake, hnow, htimes, hper⟩ := h
  -- whoever is at the front counts
  have hcounts (x : Caller) (hx : t.gate.queue.head? = some x) : x.counts = true := by
    cases front with
    | nil =>
      rw [hqueue] at hx
      cases hx
      exact hc
    | cons first front =>
      rw [hqueue] at hx
      cases hx
      exact hfront _ List.mem_cons_self
  cases hgoes with
  | calls counts =>
    refine .inr (.inr ⟨⟨front, rest ++ [t.caller counts], ?_, hfront⟩, hawake, hnow, htimes, hper⟩)
    simp [Line.call, Gate.join, hqueue]
  | leaves x hx =>
    by_cases heq : x = c
    · exact .inl (heq ▸ List.mem_append_right _ List.mem_cons_self)
    · refine .inr (.inr ⟨⟨front.filter (· ≠ x), rest.filter (· ≠ x), ?_, ?_⟩, ?_, hnow, htimes,
        hper⟩)
      · have hne : c ≠ x := fun h => heq h.symm
        simp [Line.leave, Gate.leave, hqueue, hne]
      · exact fun y hy => hfront y (List.mem_of_mem_filter hy)
      · rw [Line.leave]
        simp [hawake]
  | passes hx hacquires _ _ =>
    rw [hcounts _ hx] at hacquires
    cases hacquires
  | sleeps hx hacquires _ _ =>
    rw [hcounts _ hx] at hacquires
    cases hacquires
  | @counts x n g hx hcount =>
    obtain ⟨hhead, rfl, rfl⟩ := Gate.count?_eq_some hcount
    cases front with
    | nil =>
      obtain rfl : c = x := by
        rw [hqueue] at hhead
        cases hhead
        rfl
      refine .inr (.inl (List.mem_append_right _ (List.mem_singleton.2 ?_)))
      have hcounted := ht.onTime.accounts.counted
      rw [htimes, hnow, hper] at hcounted
      rw [hnow, Line.inWindow, ← hcounted]
      rfl
    | cons first front =>
      refine .inr (.inr ⟨⟨front, rest, ?_, fun y hy => hfront y (List.mem_cons_of_mem _ hy)⟩,
        hawake, hnow, htimes, hper⟩)
      simp [hqueue]
  | waits time hlt hrest =>
    obtain ⟨x, hx⟩ : ∃ x, t.gate.queue.head? = some x := by
      rw [hqueue]
      cases front <;> exact ⟨_, rfl⟩
    obtain ⟨d, hd, -⟩ := hrest x hx
    rw [hawake] at hd
    cases hd

theorem Soon.goes (h : Soon s c t) (hc : c.counts = true) (ht : Orderly t) (hgoes : Goes t t') :
    Soon s c t' := by
  rcases h with hgone | hanswer | hnext
  · refine .inl ?_
    cases hgoes with
    | leaves _ _ => exact List.mem_append_left _ hgone
    | calls _ | passes _ _ _ _ | sleeps _ _ _ _ | counts _ _ | waits _ _ _ => exact hgone
  · refine .inr (.inl ?_)
    rcases ht.answers hgoes with heq | ⟨_, _, heq⟩
    · exact heq ▸ hanswer
    · exact heq ▸ List.mem_append_left _ hanswer
  · exact hnext.goes hc ht hgoes

/-- Where nobody waits for a grant, whoever asks for a count has it at once. -/
theorem Orderly.soon (h : Orderly s) (hcounts : ∀ c ∈ s.gate.queue, c.counts = true)
    (hrun : Run (s.call true) t) : Soon s (s.caller true) t := by
  have hawake : s.wakes = none := by
    cases hwakes : s.wakes with
    | none => rfl
    | some d =>
      obtain ⟨c, hfront, hc⟩ := (h.onTime.asleep d hwakes).front
      rw [hcounts c (List.mem_of_mem_head? hfront)] at hc
      cases hc
  induction hrun with
  | refl => exact .inr (.inr ⟨⟨s.gate.queue, [], rfl, hcounts⟩, hawake, rfl, rfl, rfl⟩)
  | tail hrun hgoes ih => exact ih.goes rfl ((h.goes (.calls true)).run hrun) hgoes

/-- It need not wait for anybody who does not go on. -/
theorem Orderly.answered (h : Orderly s) (hcounts : ∀ c ∈ s.gate.queue, c.counts = true) :
    ∃ t, Run (s.call true) t ∧ t.calls = s.calls ++ [s.caller true] ∧ t.gone = s.gone ∧
      (s.caller true, s.now, s.inWindow s.gate.limiter.per) ∈ t.answers := by
  obtain ⟨t, hrun, hcalls, hgone, hempty⟩ := (h.goes (.calls true)).empties
  refine ⟨t, hrun, hcalls, hgone, ?_⟩
  rcases h.soon hcounts hrun with hmem | hanswer | hnext
  · rw [hgone] at hmem
    exact absurd (h.listed.gone _ hmem) (h.listed.caller_not_mem true)
  · exact hanswer
  · obtain ⟨front, rest, hqueue, -⟩ := hnext.queued
    rw [hempty] at hqueue
    simp at hqueue

/-! ## Any limiter -/

/-- A limiter of any rate and window can be made. Callers come to it at any times, for a grant or
for a count, and give up whenever they like, on a clock whose sleepers wake exactly in time. The
calls for a grant, but for those that were given up, are granted in order at the times of the
schedule: each one when it comes, but not before the one before it and not before `per` after the
one that is `rate` before it. None of them is overdue, and all can be granted. Each caller passes at
most twice through its loop, and sleeps at most once. Whoever counts is told the number of grants in
the window at that time, and at once if nobody waits for a grant. -/
theorem grants_on_schedule (rate : UInt32) (per : Span) (hr : 0 < rate) (hp : 0 < per.toNanos) :
    ∃ l, Limiter.new rate per = .ok l ∧ ∀ (start : Nat) (s : Line), Run (.start l start) s →
      (s.remaining.map Caller.since).Pairwise (· ≤ ·) ∧
      (∀ i since, (s.remaining.map Caller.since)[i]? = some since →
        (s.scheduled rate.toNat per.toNanos)[i]? = some (max since
          (max (ago (s.scheduled rate.toNat per.toNanos) i 1 0)
            (ago (s.scheduled rate.toNat per.toNanos) i rate.toNat per.toNanos)))) ∧
      s.granted <+: s.remaining.zip (s.scheduled rate.toNat per.toNanos) ∧
      (∀ time ∈ (s.scheduled rate.toNat per.toNanos).drop s.granted.length, s.now ≤ time) ∧
      (∃ s', Run s s' ∧ s'.calls = s.calls ∧ s'.gone = s.gone ∧ s'.gate.queue = [] ∧
        s'.granted = s.remaining.zip (s.scheduled rate.toNat per.toNanos)) ∧
      (∀ c, s.passes.count c ≤ 2 ∧ s.slept.count c ≤ 1) ∧
      (∀ s', Goes s s' → s'.answers = s.answers ∨ ∃ c ∈ s.gate.queue,
        s'.answers = s.answers ++ [(c, s.now, s.inWindow per.toNanos)]) ∧
      ((∀ c ∈ s.gate.queue, c.counts = true) →
        (∀ s', Run (s.call true) s' →
          s.caller true ∈ s'.gone ∨
          (s.caller true, s.now, s.inWindow per.toNanos) ∈ s'.answers ∨
          (s.caller true ∈ s'.gate.queue ∧ s'.now = s.now)) ∧
        ∃ s', Run (s.call true) s' ∧ s'.calls = s.calls ++ [s.caller true] ∧ s'.gone = s.gone ∧
          (s.caller true, s.now, s.inWindow per.toNanos) ∈ s'.answers) := by
  refine ⟨_, Limiter.new_eq_ok hr hp, fun start s hrun => ?_⟩
  have h : Orderly s := (Orderly.start rfl start).run hrun
  obtain ⟨hrate, hper⟩ := hrun.bounds
  have hrate' : s.gate.limiter.rate = rate.toNat := hrate
  have hper' : s.gate.limiter.per = per.toNanos := hper
  have hremaining : (s.remaining.map Caller.since).Pairwise (· ≤ ·) :=
    List.pairwise_map.2 (h.listed.ordered.filter _)
  rw [← hrate', ← hper']
  refine ⟨hremaining, fun i since => schedule_getElem? s.gate.limiter.rate_pos, h.granted_prefix,
    h.not_overdue, ?_, h.tried.bounded, fun s' => h.answers,
    fun hcounts => ⟨fun s' hrun' => ?_, h.answered hcounts⟩⟩
  · obtain ⟨s', hrun', hcalls, hgone, hempty⟩ := h.empties
    refine ⟨s', hrun', hcalls, hgone, hempty, ?_⟩
    have hsame : s'.remaining = s.remaining := by
      rw [Line.remaining, Line.remaining, hcalls, hgone]
    have hgranted := (h.run hrun').granted_of_empty hempty
    rwa [hrun'.bounds.1, hrun'.bounds.2, Line.scheduled, hsame] at hgranted
  · rcases h.soon hcounts hrun' with hgone | hanswer | hnext
    · exact .inl hgone
    · exact .inr (.inl hanswer)
    · obtain ⟨front, rest, hqueue, -⟩ := hnext.queued
      exact .inr (.inr ⟨hqueue ▸ List.mem_append_right _ List.mem_cons_self, hnext.now⟩)

/-- Two grants a second. The third caller gives up while it sleeps, and one that counts has its
answer then; the last caller has the grant that the third one waited for. -/
theorem grants_on_schedule_given_up :
    (0 : UInt32) < 2 ∧ 0 < (Span.ofSeconds 1).toNanos ∧
      ∃ l s, Limiter.new 2 (Span.ofSeconds 1) = .ok l ∧ Run (.start l 0) s ∧
        s.remaining = [⟨0, false, 0⟩, ⟨1, false, 400000000⟩, ⟨4, false, 700000000⟩] ∧
        s.scheduled 2 1000000000 = [0, 400000000, 1000000000] ∧
        s.granted <+: s.remaining.zip [0, 400000000, 1000000000] ∧
        s.granted.length = 3 ∧ s.answers = [(⟨3, true, 400000000⟩, 700000000, 2)] ∧
        s.slept = [⟨2, false, 400000000⟩, ⟨4, false, 700000000⟩] := by
  have hr : (0 : UInt32) < 2 := by decide
  have hp := Span.second_pos
  obtain ⟨l, hl, hschedule⟩ := grants_on_schedule 2 (Span.ofSeconds 1) hr hp
  rw [Limiter.new_eq_ok hr hp] at hl
  cases hl
  have two : Run (.start ⟨2, 1000000000, [], by decide, by decide⟩ 0) _ :=
    ((((Relation.ReflTransGen.refl.tail (.calls false)).tail (.passes rfl rfl nofun rfl)).tail
      (.waits 400000000 (by decide) nofun)).tail (.calls false)).tail (.passes rfl rfl nofun rfl)
  have waits := (((two.tail (.calls false)).tail (.sleeps rfl rfl nofun rfl)).tail
    (.calls true)).tail (.waits 700000000 (by decide) fun _ _ => ⟨_, rfl, by decide⟩)
  have counts := ((waits.tail (.calls false)).tail (.leaves ⟨2, false, 400000000⟩ (by decide))).tail
    (.counts (c := ⟨3, true, 400000000⟩) rfl rfl)
  have three := ((counts.tail (.sleeps rfl rfl nofun rfl)).tail
    (.waits 1000000000 (by decide) fun _ _ => ⟨_, rfl, by decide⟩)).tail
      (.passes rfl rfl (fun d hd => by cases hd; rfl) rfl)
  have hscheduled := (hschedule 0 _ three).2.2.1
  exact ⟨hr, hp, _, _, Limiter.new_eq_ok hr hp, three, by decide, by decide, hscheduled, by decide,
    by decide, by decide⟩

end Punctual
end MarketFeed
