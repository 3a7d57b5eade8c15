import MarketFeed.Proofs.Relay.Connections

/-!
# MarketFeed.Proofs.Relay.Frames

The frames of an attempt among all that was written.

* `Separate` — each attempt writes on one connection, where nothing of another attempt stands
  between its frames.
* `Absent`, `Latest` — an attempt has written nothing so far; it was the last to write on a
  connection. `Separate.concat`: in both cases it may write there.
* `framesOf` — the frames that count. Where a lock may be handed on in any order the logon does not:
  another call can find the new session first.
* `Gains`, `gains_of_goes` — what a step adds to them.
-/

namespace MarketFeed
namespace Relay

/-! ## Attempts that do not mix -/

/-- What was written on one connection. -/
def storyAt (story : List Entry) (n : Nat) : List Entry := story.filter fun e => e.connection = n

/-- Nothing of another attempt stands between two entries of an attempt. -/
def Unmixed (l : List Entry) : Prop :=
  ∀ before first between last after, l = before ++ first :: (between ++ last :: after) →
    first.attempt = last.attempt → ∀ e ∈ between, e.attempt = first.attempt

structure Separate (story : List Entry) : Prop where
  unmixed : ∀ n, Unmixed (storyAt story n)
  single : ∀ e ∈ story, ∀ e' ∈ story, e.attempt = e'.attempt → e.connection = e'.connection

def Absent (story : List Entry) (a : Nat × Bool) : Prop := ∀ e ∈ story, e.attempt ≠ a

/-- All that an attempt has written is on one connection, and was written last there. -/
structure Latest (story : List Entry) (a : Nat × Bool) (n : Nat) : Prop where
  here : ∀ e ∈ story, e.attempt = a → e.connection = n
  last : ∃ before e, storyAt story n = before ++ [e] ∧ e.attempt = a

section Attempts

variable {story : List Entry} {e : Entry} {a : Nat × Bool} {n : Nat}

theorem storyAt_concat (story : List Entry) (e : Entry) (n : Nat) :
    storyAt (story ++ [e]) n = if e.connection = n then storyAt story n ++ [e]
      else storyAt story n := by
  rw [storyAt, List.filter_append, storyAt]
  by_cases h : e.connection = n <;> simp [h]

theorem Unmixed.concat {l : List Entry} (h : Unmixed l)
    (he : Absent l e.attempt ∨ ∃ before x, l = before ++ [x] ∧ x.attempt = e.attempt) :
    Unmixed (l ++ [e]) := by
  intro before first between last after heq hsame
  rcases List.eq_nil_or_concat after with rfl | ⟨after, y, rfl⟩
  · -- the new entry is the last one
    have hsplit : l = before ++ first :: between ∧ e = last := by
      have hlast : l ++ [e] = (before ++ first :: between) ++ [last] := by
        rw [heq, List.append_assoc, List.cons_append]
      obtain ⟨hl, he⟩ := List.append_inj' hlast rfl
      exact ⟨hl, List.singleton_inj.1 he⟩
    obtain ⟨hl, rfl⟩ := hsplit
    rcases he with habsent | ⟨start, x, hx, hxe⟩
    · exact absurd hsame (habsent first (hl ▸ List.mem_append_right _ (.head _)))
    · rcases List.eq_nil_or_concat between with rfl | ⟨between, y, rfl⟩
      · nofun
      · -- what stood last before is of the same attempt
        rw [List.concat_eq_append] at hl ⊢
        have hends : start ++ [x] = (before ++ first :: between) ++ [y] := by
          rw [← hx, hl, List.append_assoc, List.cons_append]
        obtain ⟨-, hxy⟩ := List.append_inj' hends rfl
        cases hxy
        intro z hz
        rcases List.mem_append.1 hz with hz | hz
        · exact h before first between x [] hl (hsame.trans hxe.symm) z hz
        · rw [List.mem_singleton.1 hz, hxe, hsame]
  · have hl : l = before ++ first :: (between ++ last :: after) := by
      have hends : l ++ [e] = (before ++ first :: (between ++ last :: after)) ++ [y] := by
        rw [heq, List.concat_eq_append]
        simp only [List.append_assoc, List.cons_append]
      exact (List.append_inj' hends rfl).1
    exact h before first between last after hl hsame

theorem Absent.at (h : Absent story a) (n : Nat) : Absent (storyAt story n) a :=
  fun x hx => h x (List.mem_filter.1 hx).1

theorem Absent.concat (h : Absent story a) (he : e.attempt ≠ a) : Absent (story ++ [e]) a := by
  intro x hx
  rcases List.mem_append.1 hx with hx | hx
  · exact h x hx
  · rwa [List.mem_singleton.1 hx]

/-- An attempt goes on where it has written. -/
theorem latest_concat (h : Absent story e.attempt ∨ Latest story e.attempt e.connection) :
    Latest (story ++ [e]) e.attempt e.connection := by
  refine ⟨fun x hx hxe => ?_, storyAt story e.connection, e, ?_, rfl⟩
  · rcases List.mem_append.1 hx with hx | hx
    · rcases h with h | h
      · exact absurd hxe (h x hx)
      · exact h.here x hx hxe
    · rw [List.mem_singleton.1 hx]
  · rw [storyAt_concat, if_pos rfl]

theorem Separate.nil : Separate [] := by
  refine ⟨fun n before first between last after h => ?_, nofun⟩
  cases before <;> cases h

theorem Separate.concat (hs : Separate story)
    (h : Absent story e.attempt ∨ Latest story e.attempt e.connection) :
    Separate (story ++ [e]) := by
  refine ⟨fun n => ?_, ?_⟩
  · rw [storyAt_concat]
    split
    · rename_i hn
      subst hn
      exact (hs.unmixed _).concat (h.imp (fun h => h.at _) Latest.last)
    · exact hs.unmixed n
  · have hnew := (latest_concat h).here
    intro x hx y hy hxy
    rcases List.mem_append.1 hx with hx' | hx'
    · rcases List.mem_append.1 hy with hy' | hy'
      · exact hs.single x hx' y hy' hxy
      · rw [List.mem_singleton.1 hy'] at hxy ⊢
        exact hnew x hx hxy
    · rw [List.mem_singleton.1 hx'] at hxy ⊢
      exact (hnew y hy hxy.symm).symm

end Attempts

/-! ## What a step adds -/

def framesOf (inTurn : Bool) (story : List Entry) : List Entry :=
  story.filter fun e => inTurn || decide (e.message.kind ≠ .logonRequest)

/-- What a step of a call adds to the frames: nothing, its logon, or one on the session, whose lock
it holds. -/
inductive Gains (inTurn : Bool) (k : Call) (c : Client) (frames : List Entry) :
    List Entry → Prop where
  | nothing : Gains inTurn k c frames frames
  | logon (ht : inTurn = true) (hs : k.stage = .dialling) : Gains inTurn k c frames
      (frames ++ [⟨k.id, k.task.again, c.connections.length, Client.logonRequest c.config⟩])
  | frame (s : Session) (m : Wire.Message) (hc : c.session = some s)
      (hl : c.sessionLock.heldBy k.id = true)
      (hs : k.stage.ownsSession = true ∨ k.stage = .closing) :
      Gains inTurn k c frames (frames ++ [⟨k.id, k.task.again, s.connection, m⟩])

section Steps

variable {inTurn : Bool} {story : List Entry} {c c' : Client} {now : Nat} {k : Call}

theorem framesOf_append (inTurn : Bool) (story more : List Entry) :
    framesOf inTurn (story ++ more) = framesOf inTurn story ++ framesOf inTurn more :=
  List.filter_append _ _

theorem framesOf_true (story : List Entry) : framesOf true story = story :=
  List.filter_eq_self.2 fun _ _ => rfl

theorem gains_of_goes (hlk : Locked c) (hk : k ∈ c.calls) (hg : Goes now k c c') :
    Gains inTurn k c (framesOf inTurn story) (framesOf inTurn (story ++ k.entries c c')) := by
  rw [framesOf_append]
  cases pens_of_goes hlk hk hg with
  | nothing h =>
    have hnone : k.entries c c' = [] := entries_of_writes k (Writes.nothing h 0)
    rw [hnone, show framesOf inTurn [] = [] from rfl, List.append_nil]
    exact .nothing
  | logon hs h =>
    rw [entries_of_writes k h]
    cases inTurn with
    | false =>
      have hout : framesOf false ([Client.logonRequest c.config].map fun m =>
          ⟨k.id, k.task.again, c.connections.length, m⟩) = [] := rfl
      rw [hout, List.append_nil]
      exact .nothing
    | true => exact .logon rfl hs
  | frame s m hc hl hm hs h =>
    have hcounts : framesOf inTurn [⟨k.id, k.task.again, s.connection, m⟩] =
        [⟨k.id, k.task.again, s.connection, m⟩] := by
      rw [framesOf, List.filter_cons_of_pos, List.filter_nil]
      rw [decide_eq_true hm, Bool.or_true]
    rw [entries_of_writes k h, List.map_cons, List.map_nil, hcounts]
    exact .frame s m hc hl hs

/-- Whether a call of this stage may write when it goes on. -/
def Stage.writes (st : Stage) : Bool :=
  match st with
  | .dialling | .closing => true
  | _ => st.ownsSession

theorem writes_of_ownsSession {st : Stage} (h : st.ownsSession = true) : st.writes = true := by
  unfold Stage.writes
  split
  · rfl
  · rfl
  · exact h

/-- A call that neither dials nor sends adds nothing. -/
theorem Gains.same {frames frames' : List Entry} (h : Gains inTurn k c frames frames')
    (hquiet : k.stage.writes = false) : frames' = frames := by
  cases h with
  | nothing => rfl
  | logon _ hst =>
    rw [hst] at hquiet
    cases hquiet
  | frame _ _ _ _ hst =>
    have hw : k.stage.writes = true := by
      rcases hst with hst | hst
      · exact writes_of_ownsSession hst
      · rw [hst]
        rfl
    rw [hquiet] at hw
    cases hw

end Steps

end Relay
end MarketFeed
