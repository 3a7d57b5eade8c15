import MarketFeed.Proofs.Relay.Frames
import MarketFeed.Proofs.Relay.Turns

/-!
# MarketFeed.Proofs.Relay.Unmixed

The calls of a client do not get in each other's way.

* `Placed`, `Accounted` — where the frames of a call's attempt stand, by its stage.
* `Apart`, `Told.apart` — the frames of an attempt stand together.
* `Told.complete` — the story has all that was written.
* `connections_unmixed` — one connection at most, unmixed frames, and no deadlock.
-/

namespace MarketFeed
namespace Relay

/-! ## The frames of a call -/

/-- Where the frames of a call's attempt stand, by its stage. Before it sends it has written nothing
but its logon; then its frames are the last on the connection of the session. -/
def Placed (inTurn : Bool) (frames : List Entry) (c : Client) (k : Call) : Prop :=
  match k.stage with
  | .loggingOn n _ | .beforeInstallation n =>
    Absent frames k.attempt ∨ (inTurn = true ∧ Latest frames k.attempt n)
  | .beforeSending => Absent frames k.attempt ∨ (inTurn = true ∧
    c.sessionLock.heldBy k.id = true ∧ ∃ n, c.sessionAt? = some n ∧ Latest frames k.attempt n)
  | .sending _ | .subscribing .. => ∀ n, c.sessionAt? = some n →
    Absent frames k.attempt ∨ Latest frames k.attempt n
  | .beforeTeardown _ | .tearingDown _ | .finished _ => True
  | _ => Absent frames k.attempt

structure Accounted (inTurn : Bool) (frames : List Entry) (c : Client) (k : Call) : Prop where
  first : k.task.again = false → Absent frames (k.id, true)
  retrying : k.stage.tearsDown = true → ∃ batch, k.task = .publish batch false
  placed : Placed inTurn frames c k

section Frames

variable {config : RelayConfig} {inTurn : Bool} {frames frames' : List Entry} {c c' : Client}
  {now : Nat} {k : Call}

theorem sessionAt_congr (h : c'.session = c.session) : c'.sessionAt? = c.sessionAt? := by
  rw [Client.sessionAt?, Client.sessionAt?, h]

/-- What leaves the session on its connection, and its lock with who holds it. -/
theorem Accounted.still (h : Accounted inTurn frames c k) (hs : c'.sessionAt? = c.sessionAt?)
    (hl : inTurn = true → c.sessionLock.heldBy k.id = true → c'.sessionLock.heldBy k.id = true) :
    Accounted inTurn frames c' k := by
  refine ⟨h.first, h.retrying, ?_⟩
  have hplaced := h.placed
  unfold Placed at hplaced ⊢
  split at hplaced
  · exact hplaced
  · exact hplaced
  · refine hplaced.imp_right fun ⟨hturn, hheld, n, hn, hlast⟩ => ?_
    exact ⟨hturn, hl hturn hheld, n, hs.trans hn, hlast⟩
  · rwa [hs]
  · rwa [hs]
  · trivial
  · trivial
  · trivial
  · exact hplaced

/-- Nothing is said of a call whose attempt has failed. -/
theorem placed_failure (k : Call) (e : RelayError) :
    Placed inTurn frames c { k with stage := k.failure e } := by
  unfold Call.failure
  split <;> trivial

theorem retries_spec {e : RelayError} (h : k.retries e = true) :
    ∃ batch, k.task = .publish batch false := by
  unfold Call.retries at h
  split at h
  · rename_i batch ht
    exact ⟨batch, ht⟩
  · cases h

theorem tearsDown_failure {e : RelayError} (h : (k.failure e).tearsDown = true) :
    ∃ batch, k.task = .publish batch false := by
  unfold Call.failure at h
  split at h
  · rename_i hr
    exact retries_spec hr
  · cases h

/-- Who dials finds no session. -/
theorem session_of_dials (hw : Wired config c) (hk : k ∈ c.calls) (hs : k.stage = .dialling) :
    c.session = none := by
  have hfit := hw.fits k hk
  rw [hs] at hfit
  exact hfit

/-! ## Another call goes on -/

theorem Gains.absent (hg : Gains inTurn k c frames frames') {a : Nat × Bool}
    (h : Absent frames a) (hne : a ≠ k.attempt) : Absent frames' a := by
  cases hg with
  | nothing => exact h
  | logon => exact h.concat (Ne.symm hne)
  | frame => exact h.concat (Ne.symm hne)

/-- A call that logs on is alone with its connection. -/
theorem Gains.latest_own (hg : Gains inTurn k c frames frames') (hlk : Locked c)
    (hw : Wired config c) (hk : k ∈ c.calls) {j : Call} (hj : j ∈ c.calls) (hne : j.id ≠ k.id)
    {n : Nat} (hn : Client.ownConnection? j = some n) {a : Nat × Bool}
    (h : Latest frames a n) : Latest frames' a n := by
  obtain ⟨hown, hnone⟩ := own_spec hw hj hn
  cases hg with
  | nothing => exact h
  | logon ht hs =>
    have hkj := hlk.ownsDial_unique hj hk hown (by rw [hs]; rfl)
    exact absurd (congrArg Call.id hkj) hne
  | frame s m hc =>
    rw [hnone] at hc
    cases hc

/-- While another call holds the session a step writes nothing on it. -/
theorem Gains.same_of_held (hg : Gains inTurn k c frames frames') (hw : Wired config c)
    (hk : k ∈ c.calls) {id n : Nat} (hne : id ≠ k.id) (hheld : c.sessionLock.heldBy id = true)
    (hn : c.sessionAt? = some n) : frames' = frames := by
  cases hg with
  | nothing => rfl
  | logon ht hs =>
    rw [Client.sessionAt?, session_of_dials hw hk hs] at hn
    cases hn
  | frame s m hc hl => exact absurd (heldBy_unique hheld hl) hne

theorem Accounted.beside (hlk : Locked c) (hw : Wired config c) (hk : k ∈ c.calls)
    (hg : Goes now k c c') (hgain : Gains inTurn k c frames frames') {j : Call}
    (hj : j ∈ c.calls) (hne : j.id ≠ k.id) (h : Accounted inTurn frames c j) :
    Accounted inTurn frames' c' j := by
  have hapart : ∀ b, ((j.id, b) : Nat × Bool) ≠ k.attempt :=
    fun b heq => hne (congrArg Prod.fst heq)
  have habsent : Absent frames j.attempt → Absent frames' j.attempt :=
    fun h => hgain.absent h (hapart _)
  -- who holds the session keeps it, and the session stays
  have hheld (hl : c.sessionLock.heldBy j.id = true) : c'.sessionAt? = c.sessionAt? := by
    refine sessionAt_congr (session_of_goes hlk hk hg ?_)
    cases hlk' : c.sessionLock.heldBy k.id with
    | false => rfl
    | true => exact absurd (heldBy_unique hl hlk') hne
  have hown (n : Nat) (hst : Client.ownConnection? j = some n)
      (hplaced : Absent frames j.attempt ∨ (inTurn = true ∧ Latest frames j.attempt n)) :
      Absent frames' j.attempt ∨ (inTurn = true ∧ Latest frames' j.attempt n) :=
    hplaced.imp habsent fun ⟨hturn, hlast⟩ =>
      ⟨hturn, hgain.latest_own hlk hw hk hj hne hst hlast⟩
  have hsend (ho : j.stage.ownsSession = true)
      (hplaced : ∀ n, c.sessionAt? = some n →
        Absent frames j.attempt ∨ Latest frames j.attempt n) (n : Nat)
      (hn : c'.sessionAt? = some n) : Absent frames' j.attempt ∨ Latest frames' j.attempt n := by
    have hl := hlk.session.head j hj ho
    rw [hheld hl] at hn
    rw [hgain.same_of_held hw hk hne hl hn]
    exact hplaced n hn
  refine ⟨fun hfirst => hgain.absent (h.first hfirst) (hapart _), h.retrying, ?_⟩
  have hplaced := h.placed
  unfold Placed at hplaced ⊢
  split at hplaced
  · rename_i n due hst
    exact hown n (by rw [Client.ownConnection?, hst]) hplaced
  · rename_i n hst
    exact hown n (by rw [Client.ownConnection?, hst]) hplaced
  · rcases hplaced with habs | ⟨hturn, hl, n, hn, hlast⟩
    · exact .inl (habsent habs)
    · refine .inr ⟨hturn, heldBy_of_goes hlk hk hg hne hl, n, (hheld hl).trans hn, ?_⟩
      rwa [hgain.same_of_held hw hk hne hl hn]
  · rename_i rest hst
    exact hsend (by rw [hst]; rfl) hplaced
  · rename_i hst
    exact hsend (by rw [hst]; rfl) hplaced
  · trivial
  · trivial
  · trivial
  · exact habsent hplaced

/-! ## The call itself goes on -/

theorem placed_readiness (h : ∀ batch again, k.task = .publish batch again →
    Absent frames k.attempt ∨ (inTurn = true ∧ c.sessionLock.heldBy k.id = true ∧
      ∃ n, c.sessionAt? = some n ∧ Latest frames k.attempt n)) :
    Placed inTurn frames c { k with stage := k.readiness } := by
  obtain ⟨id, task, stage⟩ := k
  cases task with
  | publish batch again => exact h batch again rfl
  | _ => trivial

theorem tearsDown_readiness (k : Call) : k.readiness.tearsDown = false := by
  unfold Call.readiness
  split <;> rfl

/-- What a call writes while it sends follows its own frames. -/
theorem Gains.sends (hg : Gains inTurn k c frames frames') (ho : k.stage.ownsSession = true)
    (h : ∀ n, c.sessionAt? = some n → Absent frames k.attempt ∨ Latest frames k.attempt n) (n : Nat)
    (hn : c.sessionAt? = some n) : Absent frames' k.attempt ∨ Latest frames' k.attempt n := by
  cases hg with
  | nothing => exact h n hn
  | logon ht hs =>
    rw [hs] at ho
    cases ho
  | frame s m hc =>
    have hat : c.sessionAt? = some s.connection := by rw [Client.sessionAt?, hc, Option.map_some]
    rw [hat] at hn
    cases hn
    exact .inr (latest_concat (e := ⟨k.id, k.task.again, s.connection, m⟩) (h _ hat))

theorem eq_of_mem_retask (hlk : Locked c) (hk : k ∈ c.calls) {task : Task} {j : Call}
    (hj : j ∈ c.calls.map fun i => if i.id = k.id then { i with task } else i)
    (hid : j.id = k.id) : j = { k with task } := by
  obtain ⟨i, hi, rfl⟩ := List.mem_map.1 hj
  by_cases hik : i.id = k.id
  · rw [if_pos hik, eq_of_id_eq hlk.nodup hi hk hik]
  · rw [if_neg hik] at hid
    exact absurd hid hik

/-- Who has installed a session is the first to ask for it. -/
theorem heldBy_of_connected (hq : c.sessionLock.queue = [k.id]) {batch : List Tick} {again : Bool}
    (ht : k.task = .publish batch again) : (c.connected k).sessionLock.heldBy k.id = true := by
  have hlock : (c.connected k).sessionLock = (c.sessionLock.leave k.id).join k.id := by
    rw [Client.connected, ht]
    rfl
  rw [hlock]
  exact heldBy_iff.2 ⟨[], by simp [Lock.join, Lock.leave, hq]⟩

theorem Accounted.goes (hlk : Locked c) (hk : k ∈ c.calls)
    (hqueued : inTurn = true → Queued c k) (hg : Goes now k c c')
    (hgain : Gains inTurn k c frames frames') (h : Accounted inTurn frames c k) {j : Call}
    (hj : j ∈ c'.calls) (hid : j.id = k.id) : Accounted inTurn frames' c' j := by
  have hfirst (ha : k.task.again = false) : Absent frames' (k.id, true) := by
    refine hgain.absent (h.first ha) fun heq => ?_
    rw [Call.attempt, ha] at heq
    cases heq
  have hself (st : Stage) (hcalls : c'.calls = restage c.calls k.id st)
      (htears : st.tearsDown = true → ∃ batch, k.task = .publish batch false)
      (hplaced : Placed inTurn frames' c' { k with stage := st }) :
      Accounted inTurn frames' c' j := by
    rw [hcalls] at hj
    rw [eq_of_mem_restage hlk hk hj hid]
    exact ⟨hfirst, htears, hplaced⟩
  have hgoes (st : Stage) (hcalls : c'.calls = restage c.calls k.id st)
      (htears : st.tearsDown = false)
      (hplaced : Placed inTurn frames' c' { k with stage := st }) :
      Accounted inTurn frames' c' j :=
    hself st hcalls (fun h => absurd (htears.symm.trans h) Bool.false_ne_true) hplaced
  have hfails (e : RelayError) (hcalls : c'.calls = restage c.calls k.id (k.failure e)) :
      Accounted inTurn frames' c' j :=
    hself _ hcalls tearsDown_failure (placed_failure k e)
  have hends (r : Except RelayError Unit) (hcalls : c'.calls = restage c.calls k.id (.finished r)) :
      Accounted inTurn frames' c' j := hgoes _ hcalls rfl trivial
  have hquiet {st : Stage} (hs : k.stage = st) (hw : st.writes = false) : frames = frames' :=
    (hgain.same (hs ▸ hw)).symm
  have hsend (ho : k.stage.ownsSession = true) (hs : c'.sessionAt? = c.sessionAt?)
      (hplaced : ∀ n, c.sessionAt? = some n →
        Absent frames k.attempt ∨ Latest frames k.attempt n) (n : Nat)
      (hn : c'.sessionAt? = some n) : Absent frames' k.attempt ∨ Latest frames' k.attempt n :=
    hgain.sends ho hplaced n (hs.symm.trans hn)
  have hplaced := h.placed
  cases hg with
  | enters hs =>
    rw [Placed, hs, hquiet hs rfl] at hplaced
    exact hgoes .beforeInspection rfl rfl hplaced
  | findsLive s hs =>
    rw [Placed, hs, hquiet hs rfl] at hplaced
    exact hgoes _ (connected_spec c k).1 (tearsDown_readiness k)
      (placed_readiness fun _ _ _ => .inl hplaced)
  | findsNone hs =>
    obtain ⟨xs, hd⟩ := c.dropSession_spec
    rw [Placed, hs, hquiet hs rfl] at hplaced
    exact hgoes .dialling (by rw [hd]; rfl) rfl hplaced
  | refused => exact hfails _ (failAttempt_spec _ k _).1
  | dials hs =>
    rw [Placed, hs] at hplaced
    refine hgoes (.loggingOn c.connections.length (c.deadline now)) rfl rfl ?_
    cases hgain with
    | nothing => exact .inl hplaced
    | logon hturn => exact .inr ⟨hturn, latest_concat (.inl hplaced)⟩
    | frame _ _ _ _ ho =>
      rw [hs] at ho
      rcases ho with ho | ho <;> cases ho
  | hearsBeat n due x x' f d hs =>
    rw [eq_of_id_eq hlk.nodup hj hk hid, ← hquiet hs rfl]
    exact h.still rfl fun _ hl => hl
  | welcomed n due x x' f v text hs =>
    rw [Placed, hs, hquiet hs rfl] at hplaced
    exact hgoes (.beforeInstallation n) rfl rfl hplaced
  | failsLogon n due x x' e => exact hfails e (failLogon_calls _ k n e)
  | installs n hs =>
    obtain ⟨xs, hd⟩ := c.dropSession_spec
    obtain ⟨hcalls, -, hsession, -⟩ :=
      connected_spec { c.dropSession with session := some (.start n) } k
    rw [Placed, hs, hquiet hs rfl] at hplaced
    refine hgoes k.readiness ?_ (tearsDown_readiness k)
      (placed_readiness fun batch again ht => ?_)
    · rw [hcalls, hd]
    · refine hplaced.imp_right fun ⟨hturn, hlast⟩ => ⟨hturn, ?_, n, ?_, hlast⟩
      · have hqueue := hqueued hturn
        rw [Queued, hs] at hqueue
        refine heldBy_of_connected ?_ ht
        rw [hd]
        exact hqueue
      · rw [Client.sessionAt?, hsession]
        rfl
  | begins s batch again hs =>
    rw [Placed, hs, hquiet hs rfl] at hplaced
    refine hgoes (.sending batch) rfl rfl fun n hn => hplaced.imp_right ?_
    rintro ⟨-, -, m, hm, hlast⟩
    have hnm : some n = some m := hn.symm.trans hm
    cases hnm
    exact hlast
  | completes => exact hends _ rfl
  | trades s t rest id x x' hs hc =>
    rw [Placed, hs] at hplaced
    exact hgoes (.sending rest) rfl rfl (hsend (by rw [hs]; rfl) rfl hplaced)
  | asks s t rest x x' hs hc =>
    rw [Placed, hs] at hplaced
    refine hgoes (.subscribing t rest s.nextId (c.deadline now)) rfl rfl
      (hsend (by rw [hs]; rfl) ?_ hplaced)
    rw [Client.sessionAt?, Client.sessionAt?, hc]
    rfl
  | isConfirmed s t rest id due f q x x' hs hc =>
    rw [Placed, hs] at hplaced
    refine hgoes (.sending rest) rfl rfl (hsend (by rw [hs]; rfl) ?_ hplaced)
    rw [Client.sessionAt?, Client.sessionAt?, hc]
    rfl
  | isRejected => exact hends _ rfl
  | failsSending s' e => exact hfails e (failSending_calls _ k e)
  | retires e hs =>
    exact hself (.tearingDown e) rfl (fun _ => h.retrying (by rw [hs]; rfl)) trivial
  | restarts e task hs hl ht =>
    obtain ⟨batch, hpub⟩ := h.retrying (by rw [hs]; rfl)
    obtain rfl := ht batch false hpub
    obtain ⟨xs, hd⟩ := c.dropSession_spec
    rw [hd] at hj
    rcases mem_restage.1 hj with ⟨-, hne⟩ | ⟨i, hi, hik, rfl⟩
    · exact absurd hid hne
    · rw [eq_of_mem_retask hlk hk hi hik]
      have hagain : k.task.again = false := by rw [hpub]; rfl
      exact ⟨by simp [Task.again], by simp [Stage.tearsDown], hfirst hagain⟩
  | prepares hs =>
    rw [Placed, hs, hquiet hs rfl] at hplaced
    exact hgoes .closing rfl rfl hplaced
  | closes =>
    obtain ⟨xs, hd⟩ := c.logOff_spec
    exact hends (.ok ()) (by rw [hd]; rfl)

end Frames

/-! ## All frames -/

structure Apart (inTurn : Bool) (story : List Entry) (c : Client) : Prop where
  separate : Separate (framesOf inTurn story)
  past : ∀ e ∈ story, e.call < c.nextCall
  accounted : ∀ k ∈ c.calls, Accounted inTurn (framesOf inTurn story) c k

section Stories

variable {config : RelayConfig} {inTurn : Bool} {story : List Entry} {c c' : Client} {now : Nat}
  {k : Call}

theorem nextCall_of_goes (hg : Goes now k c c') : c'.nextCall = c.nextCall := by
  have hfail (c : Client) (e : RelayError) : (c.failAttempt k e).nextCall = c.nextCall := by
    rw [Client.failAttempt_eq]
    split <;> rfl
  have hconnected (c : Client) : (c.connected k).nextCall = c.nextCall := by
    unfold Client.connected
    split <;> rfl
  have hdrop (c : Client) : c.dropSession.nextCall = c.nextCall := by
    obtain ⟨xs, hd⟩ := c.dropSession_spec
    rw [hd]
  cases hg with
  | findsLive => exact hconnected c
  | findsNone => exact hdrop c
  | refused => exact hfail _ _
  | failsLogon n due x x' e => exact hfail _ e
  | installs n => exact (hconnected _).trans (hdrop c)
  | failsSending s' e =>
    rw [Client.failSending, hfail]
    split
    · exact hdrop _
    · rfl
  | restarts => exact hdrop c
  | closes =>
    obtain ⟨xs, hd⟩ := c.logOff_spec
    rw [hd]
    rfl
  | _ => rfl

theorem absent_of_fresh (h : ∀ e ∈ story, e.call < c.nextCall) (b : Bool) :
    Absent (framesOf inTurn story) (c.nextCall, b) := by
  intro e he heq
  have hlt := h e (List.mem_filter.1 he).1
  rw [show e.call = c.nextCall from congrArg Prod.fst heq] at hlt
  exact Nat.lt_irrefl _ hlt

theorem Apart.goes (h : Apart inTurn story c) (hlk : Locked c) (hw : Wired config c)
    (hqueued : inTurn = true → ∀ k ∈ c.calls, Queued c k) (hk : k ∈ c.calls)
    (hg : Goes now k c c') : Apart inTurn (story ++ k.entries c c') c' := by
  have hgain : Gains inTurn k c (framesOf inTurn story)
      (framesOf inTurn (story ++ k.entries c c')) := gains_of_goes hlk hk hg
  have hself := h.accounted k hk
  refine ⟨?_, ?_, ?_⟩
  · have hplaced := hself.placed
    generalize framesOf inTurn (story ++ k.entries c c') = frames' at hgain
    cases hgain with
    | nothing => exact h.separate
    | logon ht hs =>
      rw [Placed, hs] at hplaced
      exact h.separate.concat (.inl hplaced)
    | frame s m hc hl ho =>
      have hat : c.sessionAt? = some s.connection := by rw [Client.sessionAt?, hc, Option.map_some]
      refine h.separate.concat ?_
      rcases ho with ho | hs
      · cases hst : k.stage with
        | sending rest =>
          rw [Placed, hst] at hplaced
          exact hplaced _ hat
        | subscribing t rest id due =>
          rw [Placed, hst] at hplaced
          exact hplaced _ hat
        | _ =>
          rw [hst] at ho
          cases ho
      · rw [Placed, hs] at hplaced
        exact .inl hplaced
  · rw [nextCall_of_goes hg]
    intro e he
    rcases List.mem_append.1 he with he | he
    · exact h.past e he
    · obtain ⟨p, -, rfl⟩ := List.mem_map.1 he
      exact hlk.fresh k hk
  · intro j hj
    by_cases hid : j.id = k.id
    · exact hself.goes hlk hk (fun ht => hqueued ht k hk) hg hgain hj hid
    · have hold := goes_others hg hj hid
      exact (h.accounted j hold).beside hlk hw hk hg hgain hold hid

theorem Apart.calls (h : Apart inTurn story c) (hlk : Locked c) (task : Task) :
    Apart inTurn story (c.call task).2 := by
  obtain ⟨hlock, hsession, -, hnext⟩ := call_spec c task
  refine ⟨h.separate, fun e he => ?_, fun j hj => ?_⟩
  · rw [hnext]
    exact Nat.lt_succ_of_lt (h.past e he)
  · rcases mem_call hlk hj with hold | ⟨hid, -, hst⟩
    · refine (h.accounted j hold).still (sessionAt_congr hsession) fun _ hl => ?_
      rwa [hlock]
    · have habsent : ∀ b, Absent (framesOf inTurn story) (j.id, b) := by
        rw [hid]
        exact absent_of_fresh h.past
      refine ⟨fun _ => habsent true, fun htears => ?_, ?_⟩
      · rcases hst with hst | hst | hst <;> rw [hst] at htears <;> cases htears
      · rcases hst with hst | hst | hst <;> rw [Placed, hst]
        · exact habsent _
        · exact habsent _
        · trivial

/-- The frames of each attempt stand together on one connection. -/
theorem Told.apart (h : Told config inTurn story c) : Apart inTurn story c := by
  induction h with
  | new => exact ⟨.nil, nofun, fun k hk => by cases hk⟩
  | goes h now k hk hs ih =>
    obtain ⟨hlk, hw⟩ := h.kept
    refine ih.goes hlk hw (fun ht => ?_) (List.mem_of_find?_eq_some hk) (goes_of_step hs)
    subst ht
    exact h.queued
  | around h ha ih =>
    obtain ⟨hat, hl, -, hcalls, hnext⟩ := around_spec ha
    refine ⟨ih.separate, by rw [hnext]; exact ih.past, fun k hk => ?_⟩
    rw [hcalls] at hk
    exact (ih.accounted k hk).still hat fun _ hheld => by rwa [hl]
  | calls h task ht ih => exact ih.calls h.kept.1 task
  | forgets h k r hk hs ih =>
    refine ⟨ih.separate, ih.past, fun j hj => ?_⟩
    exact (ih.accounted j (List.mem_filter.1 hj).1).still rfl fun _ hl => hl
  | givesUp h k hk hs ih =>
    obtain ⟨hl, hnext⟩ := abandon_locks hk
    obtain ⟨-, hsession, -, hcalls⟩ := abandon_spec hk
    refine ⟨ih.separate, by rw [hnext]; exact ih.past, fun j hj => ?_⟩
    rw [hcalls] at hj
    obtain ⟨hold, hne⟩ := List.mem_filter.1 hj
    refine (ih.accounted j hold).still (sessionAt_congr hsession) fun _ hheld => ?_
    rw [hl]
    exact heldBy_leave hheld (of_decide_eq_true hne)
  | reorders h hany hr ih =>
    -- what relies on turns is not said here
    subst hany
    cases hr with
    | dial => exact ⟨ih.separate, ih.past, fun j hj => (ih.accounted j hj).still rfl nofun⟩
    | session => exact ⟨ih.separate, ih.past, fun j hj => (ih.accounted j hj).still rfl nofun⟩

/-! ## The story tells all -/

theorem storyAt_entries (k : Call) (n m : Nat) (new : List Wire.Message) :
    (storyAt (new.map fun w => ⟨k.id, k.task.again, n, w⟩) m).map Entry.message =
      if n = m then new else [] := by
  rw [storyAt, List.filter_map]
  by_cases h : n = m
  · simp [h, Function.comp_def]
  · simp [h, Function.comp_def]

/-- The story has all messages of each connection, in the order in which they were written. -/
theorem Told.complete (h : Told config inTurn story c) (n : Nat) :
    messages (c.logAt n) = (storyAt story n).map Entry.message := by
  have hsame {c c' : Client} (hl : c'.logs = c.logs) :
      messages (c'.logAt n) = messages (c.logAt n) := by rw [Client.logAt, Client.logAt, hl]
  induction h with
  | new => rfl
  | @goes story c c' h now k hk hs ih =>
    have hall : ∀ m new, Writes c c' m new →
        messages (c'.logAt n) = (storyAt (story ++ k.entries c c') n).map Entry.message := by
      intro m new hw
      rw [storyAt, List.filter_append, List.map_append, entries_of_writes k hw]
      change _ = (storyAt story n).map Entry.message ++ (storyAt _ n).map Entry.message
      rw [storyAt_entries, ← ih]
      by_cases hm : m = n
      · rw [if_pos hm, ← hm, hw.here]
      · rw [if_neg hm, List.append_nil, hw.elsewhere n (Ne.symm hm)]
    cases pens_of_goes h.kept.1 (List.mem_of_find?_eq_some hk) (goes_of_step hs) with
    | nothing hw => exact hall 0 [] (.nothing hw 0)
    | logon _ hw => exact hall _ _ hw
    | frame s m _ _ _ _ hw => exact hall _ _ hw
  | around h ha ih => exact ((calm_of_around ha).1.writes n).trans ih
  | @calls story c h task ht ih => exact (hsame (logs_congr (call_spec c task).2.2.1)).trans ih
  | forgets h k r hk hs ih => exact (hsame rfl).trans ih
  | givesUp h k hk hs ih => exact (hsame (abandon_spec hk).2.2.1).trans ih
  | reorders h hany hr ih => cases hr <;> exact (hsame rfl).trans ih

end Stories

/-! ## The law -/

/-- Whatever is called, in whatever order the calls go on and whatever the peers do: at most one
connection is open or being dialled; a session is installed only where there is none; the story has
all that was written, and the frames of each attempt stand together on one connection; and while a
call has not finished, one that has not waits for no lock.

Where the locks are handed on in turn the frames of an attempt begin with its logon. If another call
may ask for the session before the one that has installed it, they begin behind the logon. -/
theorem connections_unmixed (config : RelayConfig) :
    (∀ c, Reachable config c → ∃ story, Told config true story c) ∧
    ∀ inTurn story c, Told config inTurn story c →
      c.connectionCount ≤ 1 ∧
      (∀ k ∈ c.calls, ∀ n, k.stage = .beforeInstallation n → c.session = none) ∧
      (∀ n, messages (c.logAt n) = (storyAt story n).map Entry.message) ∧
      Separate (framesOf inTurn story) ∧
      ((∃ k ∈ c.calls, ∀ r, k.stage ≠ .finished r) →
        ∃ k ∈ c.calls, (∀ r, k.stage ≠ .finished r) ∧
          ∀ now, (∀ due, Client.alarm? k = some due → due ≤ now) →
            (c.step now k).isSome = true) := by
  refine ⟨fun c hr => hr.told, fun inTurn story c h => ?_⟩
  obtain ⟨hlk, hw⟩ := h.kept
  refine ⟨h.connectionCount_le, fun k hk n hst => ?_, h.complete, h.apart.separate, ?_⟩
  · have hfit := hw.fits k hk
    rw [hst] at hfit
    exact hfit.1
  · rintro ⟨i, hi, hs⟩
    obtain ⟨k, hk, hks, hdial, hsession⟩ := hlk.someoneHolds hi hs
    exact ⟨k, hk, hks, fun now hdue => goesOn_of_held hw hk hdial hsession hks hdue⟩

/-- Two batches at once. The peer does not answer the subscription of the first, and the second
waits behind it. -/
def twoAtOnce : Client :=
  let batch : List Tick := [⟨"CME", "ESZ4", "t", .epoch, .zero, .zero, none, []⟩]
  let first := ((Scenario.new .default [⟨none, [[]], []⟩]).start (.publish batch false)).2
  (Network.system.settle (first.start (.publish batch false)).2.timed).world.client

theorem connections_unmixed_two : ∃ story, Told .default true story twoAtOnce ∧
    twoAtOnce.connectionCount = 1 ∧
    (storyAt story 0).map (fun e => e.message.kind) = [.logonRequest, .subscribe] ∧
    Separate story ∧ ∃ k ∈ twoAtOnce.calls, ∀ now, (∀ due, Client.alarm? k = some due → due ≤ now) →
      (twoAtOnce.step now k).isSome = true := by
  have hnew : Reachable .default (Scenario.new .default [⟨none, [[]], []⟩]).timed.world.client :=
    .new
  have hreach : Reachable .default twoAtOnce :=
    (keeps_reachable .default).settle
      (reachable_start (reachable_start hnew (by intro b h; cases h)) (by intro b h; cases h))
  obtain ⟨hstory, hlaw⟩ := connections_unmixed .default
  obtain ⟨story, htold⟩ := hstory twoAtOnce hreach
  obtain ⟨-, -, hcomplete, hseparate, hgoes⟩ := hlaw true story twoAtOnce htold
  have hwaits : ∃ i ∈ twoAtOnce.calls, i.stage.inDial = true := by decide +kernel
  obtain ⟨i, hi, hin⟩ := hwaits
  obtain ⟨k, hk, -, hgoes⟩ := hgoes ⟨i, hi, fun r hst => by rw [hst] at hin; cases hin⟩
  refine ⟨story, htold, by decide +kernel, ?_, framesOf_true story ▸ hseparate, k, hk, hgoes⟩
  have hkinds : (messages (twoAtOnce.logAt 0)).map Wire.Message.kind =
      [.logonRequest, .subscribe] := by decide +kernel
  rw [hcomplete, List.map_map] at hkinds
  exact hkinds

end Relay
end MarketFeed
