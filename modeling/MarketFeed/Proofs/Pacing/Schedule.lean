import Mathlib.Data.List.Induction
import MarketFeed.Proofs.Pacing.Window

/-!
# MarketFeed.Proofs.Pacing.Schedule

The times at which a sliding window can grant calls at the earliest.

* `ago`, `earliest`, `schedule` — each call has its grant when it comes, but not before the one
  before it and not before the window has lost the one that is `rate` before it.
* `schedule_getElem?` — the schedule by this recurrence.
* `Limiter.Accounts.earliest_le`, `Limiter.Accounts.le_earliest` — what a limiter knows of the grants
  so far tells the earliest time of the next one.
* `Limiter.Accounts.counted` — and the number of grants in the window.
-/

namespace MarketFeed

/-- Some time `later` than the grant that stands `n` before the place `i`; zero if there is none. -/
def ago (grants : List Nat) (i n later : Nat) : Nat :=
  if n ≤ i then grants[i - n]?.getD 0 + later else 0

/-- When a call of some time can be granted, after some grants. -/
def earliest (rate per : Nat) (grants : List Nat) (since : Nat) : Nat :=
  max since (max (ago grants grants.length 1 0) (ago grants grants.length rate per))

/-- When calls of some times can be granted, one after another. -/
def schedule (rate per : Nat) (calls : List Nat) : List Nat :=
  calls.foldl (fun grants since => grants ++ [earliest rate per grants since]) []

variable {rate per : Nat}

theorem schedule_concat (calls : List Nat) (since : Nat) :
    schedule rate per (calls ++ [since]) =
      schedule rate per calls ++ [earliest rate per (schedule rate per calls) since] := by
  rw [schedule, List.foldl_append]
  rfl

@[simp] theorem length_schedule (calls : List Nat) :
    (schedule rate per calls).length = calls.length := by
  induction calls using List.reverseRecOn with
  | nil => rfl
  | append_singleton calls since ih => simp [schedule_concat, ih]

theorem ago_append {grants more : List Nat} {i n later : Nat} (hn : 0 < n)
    (hi : i ≤ grants.length) : ago (grants ++ more) i n later = ago grants i n later := by
  rw [ago, ago]
  split
  · rw [List.getElem?_append_left (by omega)]
  · rfl

/-- The schedule by its recurrence. -/
theorem schedule_getElem? (hrate : 0 < rate) {calls : List Nat} {i since : Nat}
    (h : calls[i]? = some since) :
    (schedule rate per calls)[i]? = some (max since
      (max (ago (schedule rate per calls) i 1 0) (ago (schedule rate per calls) i rate per))) := by
  induction calls using List.reverseRecOn with
  | nil => cases h
  | append_singleton calls last ih =>
    rw [schedule_concat]
    have hlength : (schedule rate per calls).length = calls.length := length_schedule calls
    rcases Nat.lt_or_ge i calls.length with hi | hi
    · rw [List.getElem?_append_left hi] at h
      rw [List.getElem?_append_left (by omega), ih h, ago_append (by omega) (by omega),
        ago_append hrate (by omega)]
    · obtain rfl : i = calls.length := by
        have hlt := (List.getElem?_eq_some_iff.1 h).1
        rw [List.length_append, List.length_singleton] at hlt
        omega
      rw [List.getElem?_concat_length] at h
      cases h
      rw [ago_append (by omega) (by omega), ago_append hrate (by omega), ← hlength,
        List.getElem?_concat_length]
      rfl

theorem le_earliest_concat (grants : List Nat) (last since : Nat) :
    last ≤ earliest rate per (grants ++ [last]) since := by
  have hago : ago (grants ++ [last]) (grants ++ [last]).length 1 0 = last := by
    rw [ago, List.length_append, List.length_singleton, if_pos (by omega), Nat.add_sub_cancel,
      List.getElem?_concat_length]
    rfl
  rw [earliest, hago]
  omega

/-- No call that is still to be granted has a time before that of the next one. -/
theorem schedule_append {calls more : List Nat} {now : Nat}
    (h : ∀ since ∈ more, now ≤ earliest rate per (schedule rate per calls) since) :
    ∃ rest, schedule rate per (calls ++ more) = schedule rate per calls ++ rest ∧
      ∀ time ∈ rest, now ≤ time := by
  induction more generalizing calls with
  | nil => exact ⟨[], by simp, by simp⟩
  | cons since more ih =>
    have hfirst := h since List.mem_cons_self
    -- whoever comes later is not granted before the first of them
    have hmore : ∀ since' ∈ more,
        now ≤ earliest rate per (schedule rate per (calls ++ [since])) since' := by
      intro since' _
      rw [schedule_concat]
      exact Nat.le_trans hfirst (le_earliest_concat _ _ _)
    obtain ⟨rest, hsplit, hrest⟩ := ih hmore
    refine ⟨earliest rate per (schedule rate per calls) since :: rest, ?_,
      List.forall_mem_cons.2 ⟨hfirst, hrest⟩⟩
    rw [List.append_cons, hsplit, schedule_concat, List.append_assoc]
    rfl

namespace Limiter

variable {l l' : Limiter} {grants : List Nat} {now time since : Nat}

/-- The oldest grant that was not forgotten is in the window still. -/
theorem lt_of_evict {oldest : Nat} {rest : List Nat}
    (h : (l.evict now).recent = oldest :: rest) : now < oldest + l.per := by
  have hhead := List.head?_dropWhile_not (l.isOver now) l.recent
  have hrecent : l.recent.dropWhile (l.isOver now) = oldest :: rest := h
  rw [hrecent] at hhead
  have hover : ¬ oldest + l.per ≤ now := by
    rw [← isOver_iff]
    simpa using hhead
  omega

/-- Who cannot have a grant is to wait until the oldest one leaves the window. -/
theorem acquire_notBefore_time (h : l.acquire now = (.notBefore time, l')) :
    ∃ oldest rest, l'.recent = oldest :: rest ∧ time = oldest + l.per ∧ now < time := by
  obtain ⟨hfull, rfl⟩ := acquire_notBefore h
  obtain ⟨oldest, rest, hrecent⟩ :=
    List.exists_cons_of_length_pos (Nat.lt_of_lt_of_le l.rate_pos hfull)
  have htime : time = oldest + l.per := by
    have hno : ¬ (l.evict now).recent.length < (l.evict now).rate := Nat.not_lt.2 hfull
    simp only [acquire, if_neg hno] at h
    rw [hrecent] at h
    cases h
    rfl
  exact ⟨oldest, rest, hrecent, htime, htime ▸ lt_of_evict hrecent⟩

/-- When the oldest grant leaves the full window there is room for another one. -/
theorem acquire_of_due {oldest : Nat} {rest : List Nat} (hrecent : l.recent = oldest :: rest)
    (hfew : l.recent.length ≤ l.rate) : ∃ l', l.acquire (oldest + l.per) = (.granted, l') := by
  have hover : l.isOver (oldest + l.per) oldest = true := isOver_iff.2 (Nat.le_refl _)
  have hlt : (l.evict (oldest + l.per)).recent.length < l.rate := by
    have hrest : (l.evict (oldest + l.per)).recent = rest.dropWhile (l.isOver (oldest + l.per)) := by
      rw [evict, hrecent, List.dropWhile_cons_of_pos hover]
    rw [hrest]
    have hle := (List.dropWhile_sublist (l := rest) (l.isOver (oldest + l.per))).length_le
    rw [hrecent, List.length_cons] at hfew
    omega
  exact ⟨_, by rw [acquire]; exact if_pos hlt⟩

namespace Accounts

/-- No grant comes before its earliest time. -/
theorem earliest_le (h : Accounts l grants now) (ha : l.acquire now = (.granted, l'))
    (hsince : since ≤ now) : earliest l.rate l.per grants since ≤ now := by
  have hprevious : ago grants grants.length 1 0 ≤ now := by
    rw [ago]
    split
    · cases hg : grants[grants.length - 1]? with
      | none => exact Nat.zero_le _
      | some g => exact h.past g (List.mem_of_getElem? hg)
    · exact Nat.zero_le _
  have hwindow : ago grants grants.length l.rate l.per ≤ now := by
    rw [ago]
    split
    · rename_i hle
      have hpos := l.rate_pos
      have hlt : grants.length - l.rate < grants.length := by omega
      obtain ⟨hroom, rfl⟩ := acquire_granted ha
      have hspaced := h.evict.spaced_concat hroom
      rw [List.getElem?_eq_getElem hlt, Option.getD_some]
      refine hspaced (grants.length - l.rate) _ now ?_ ?_
      · rw [List.getElem?_append_left hlt, List.getElem?_eq_getElem hlt]
      · have hend : grants.length - l.rate + (l.evict now).rate = grants.length :=
          Nat.sub_add_cancel hle
        rw [hend, List.getElem?_concat_length]
    · exact Nat.zero_le _
  exact Nat.max_le.2 ⟨hsince, Nat.max_le.2 ⟨hprevious, hwindow⟩⟩

/-- While the window is full no grant is due before it loses its oldest one. -/
theorem le_earliest (h : Accounts l grants now) {oldest : Nat} {rest : List Nat}
    (hrecent : l.recent = oldest :: rest) (hfull : l.rate ≤ l.recent.length) :
    oldest + l.per ≤ earliest l.rate l.per grants since := by
  obtain ⟨old, hsplit, -⟩ := h.kept
  have hrate : l.recent.length = l.rate := Nat.le_antisymm h.few hfull
  have hago : ago grants grants.length l.rate l.per = oldest + l.per := by
    have hlength : grants.length = old.length + l.rate := by
      rw [hsplit, List.length_append, hrate]
    have hindex : grants[grants.length - l.rate]? = some oldest := by
      rw [hlength, Nat.add_sub_cancel, hsplit, hrecent, List.getElem?_append_right (Nat.le_refl _),
        Nat.sub_self]
      rfl
    rw [ago, if_pos (by omega), hindex]
    rfl
  rw [earliest, hago]
  omega

/-- The limiter has as many grants as are in the window. -/
theorem counted (h : Accounts l grants now) :
    (l.inWindow now).1 = (grants.filter fun g => now < g + l.per ∧ g ≤ now).length := by
  have hevict := h.evict
  obtain ⟨old, hsplit, hold⟩ := hevict.kept
  -- of the grants so far the forgotten ones have left the window, and the others have not
  have hnone : old.filter (fun g => now < g + l.per ∧ g ≤ now) = [] := by
    rw [List.filter_eq_nil_iff]
    intro g hg
    have hover : g + l.per ≤ now := hold g hg
    simp only [decide_eq_true_eq]
    omega
  have hall : (l.evict now).recent.filter (fun g => now < g + l.per ∧ g ≤ now) =
      (l.evict now).recent := by
    rw [List.filter_eq_self]
    intro g hg
    have hpast : g ≤ now := h.past g (hsplit ▸ List.mem_append_right _ hg)
    have hin : now < g + l.per := by
      obtain ⟨oldest, rest, hrecent⟩ := List.exists_cons_of_ne_nil (List.ne_nil_of_mem hg)
      have hsorted := hevict.recent_sorted
      rw [hrecent] at hsorted hg
      have hle : oldest ≤ g := by
        rcases List.mem_cons.1 hg with rfl | hg
        · exact Nat.le_refl _
        · exact List.rel_of_pairwise_cons hsorted hg
      exact Nat.lt_of_lt_of_le (lt_of_evict hrecent) (Nat.add_le_add_right hle _)
    exact decide_eq_true ⟨hin, hpast⟩
  rw [hsplit, List.filter_append, hnone, hall]
  rfl

end Accounts
end Limiter
end MarketFeed
